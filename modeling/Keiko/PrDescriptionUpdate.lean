import Keiko.PrDescriptionFences

/-! Repeated updates of the managed region: the text around it is kept, and the next update finds
the region of this one exactly when no code fence hides it and no marker around it is bared. -/
namespace Keiko.PrDescriptionRegion
open Keiko.Library List Option

section Unfenced

variable {fenced : List ℕ} {offset : ℕ} {marker : Text}

theorem unfencedText_append (a b : Text) : unfencedText fenced offset (a ++ b) =
    unfencedText fenced offset a ++ unfencedText fenced (offset + a.length) b := by
  rw [unfencedText,zipIdx_append,filter_append,map_append]
  rfl

theorem unfencedText_free {t : Text} (free : ∀ step < t.length, offset + step ∉ fenced) :
    unfencedText fenced offset t = t := by
  rw [unfencedText,filter_eq_self.mpr]
  · exact zipIdx_map_fst _ _
  · intro e mem
    obtain ⟨low,high,_⟩ := mem_zipIdx mem
    have outside := free (e.2 - offset) (by omega)
    rw [Nat.add_sub_cancel' low] at outside
    exact decide_eq_true outside

theorem containsUnfencedMarker_none (slice : Text) :
    containsUnfencedMarker slice offset none = containsUnfencedMarker slice offset (some []) := by
  rw [containsUnfencedMarker,containsUnfencedMarker,unfencedText_free]
  intro step _ mem
  cases mem

theorem containsUnfencedMarker_of_free (marks : IsMarker marker) (known : Option (List ℕ)) (a b : Text)
    (free : ∀ step < marker.length, offset + a.length + step ∉ known.getD []) :
    containsUnfencedMarker (a ++ marker ++ b) offset known = true := by
  have seen : containsUnfencedMarker (a ++ marker ++ b) offset (some (known.getD [])) =
      true := by
    rw [containsUnfencedMarker,unfencedText_append,unfencedText_append,unfencedText_free free]
    exact contains_append marks.marks _ _
  cases known with
  | none =>
    rw [containsUnfencedMarker_none]
    exact seen
  | some fenced => exact seen

def LineWise (body : Text) (fenced : List ℕ) : Prop :=
  ∀ before word after, body = before ++ word ++ after → '\n' ∉ word → before.length ∉ fenced →
    ∀ step < word.length, before.length + step ∉ fenced

theorem splitLines_at (pre word after : Text) (unbroken : '\n' ∉ word) :
    ∃ early last l rest, Text.splitLines pre = early ++ [last] ∧ pre.length = width early + last.length ∧
      Text.splitLines (pre ++ word ++ after) = early ++ (last ++ word ++ l) :: rest := by
  obtain ⟨early,last,ls,size,joined⟩ := splitLines_append_text pre (word ++ after)
  obtain ⟨l,rest,split⟩ := splitLines_unbroken_head unbroken after
  refine ⟨early,last,l,rest,ls,size,?_⟩
  rw [append_assoc pre,joined,split,append_assoc last]
  rfl

theorem lineWise_analyseFences (body : Text) : LineWise body (analyseFences body).offsets := by
  intro pre word after same unbroken outside step below
  obtain ⟨early,last,l,rest,_,size,ls⟩ := splitLines_at pre word after unbroken
  rw [← same] at ls
  have here := mem_offsets last.length ls (by simp only [length_append]; omega)
  have there := mem_offsets (last.length + step) ls (by simp only [length_append]; omega)
  rw [size] at outside
  rw [size,Nat.add_assoc,there,← here]
  exact outside

theorem marker_fenced (marks : IsMarker marker) (pre after : Text) :
    pre.length ∈ (analyseFences (pre ++ marker ++ after)).offsets ↔
      (fenceAfter none (Text.splitLines pre).dropLast).isSome = true := by
  obtain ⟨early,last,l,rest,split,size,ls⟩ :=
    splitLines_at pre marker after marks.unbroken
  have here := mem_offsets last.length ls (by simp only [length_append]; omega)
  obtain ⟨tail,starts,_⟩ := marks.starts
  have marked : '<' ∈ last ++ marker ++ l := by
    rw [starts]
    simp
  rw [isFencedLine_marked marked] at here
  rw [size,here,split,dropLast_concat]

end Unfenced

section Splits

variable {body : Text} {known : Option (List ℕ)} {found : RegionSplit}

/-- The markers of a region outside of fences, with no other marker around or between them. -/
structure IsSplit (body : Text) (known : Option (List ℕ)) (found : RegionSplit) : Prop where
  joined : body = found.before ++ regionStart ++ found.region ++ regionEnd ++ found.suffix
  starts : found.before.length ∉ known.getD []
  ends : (found.before ++ regionStart ++ found.region).length ∉ known.getD []
  before : containsUnfencedMarker found.before 0 known = false
  between : containsUnfencedMarker found.region (found.before.length + regionStart.length) known = false
  behind : containsUnfencedMarker found.suffix
    ((found.before ++ regionStart ++ found.region).length + regionEnd.length) known = false
  undirected : hasIssueClosingDirective found.region = false

theorem start_before_end {a b third fourth : Text}
    (same : a ++ regionStart ++ b = third ++ regionEnd ++ fourth)
    (ordered : a.length ≤ third.length) : ∃ region, third = a ++ regionStart ++ region := by
  obtain ⟨rest,marked,_⟩ := isMarker_end.starts
  rw [append_assoc,append_assoc] at same
  rcases append_eq_append_iff.mp same with ⟨middle,rfl,inner⟩ | ⟨middle,rfl,inner⟩
  · cases middle with
    | nil => exact absurd inner (not_start_end)
    | cons c middle =>
      rw [marked,cons_append] at inner
      have follows : [] ++ regionStart ++ b = c :: middle ++ '<' :: (rest ++ fourth) := inner
      obtain ⟨region,splits⟩ := before_mark isMarker_start follows (Nat.zero_lt_succ _)
      refine ⟨region,?_⟩
      rw [splits,nil_append,append_assoc]
  · rw [length_append] at ordered
    have none_left : middle = [] := length_eq_zero_iff.mp (by omega)
    rw [none_left,nil_append] at inner
    exact absurd inner.symm (not_start_end)

theorem regionStart_ne_nil : regionStart ≠ [] := by
  obtain ⟨rest,starts,_⟩ := isMarker_start.starts
  rw [starts]
  exact cons_ne_nil _ _

theorem regionEnd_ne_nil : regionEnd ≠ [] := by
  obtain ⟨rest,starts,_⟩ := isMarker_end.starts
  rw [starts]
  exact cons_ne_nil _ _

theorem splitAt_eq {pre region suffix : Text}
    (joined : body = pre ++ regionStart ++ region ++ regionEnd ++ suffix) :
    splitAt body known pre.length (pre ++ regionStart ++ region).length =
      if containsUnfencedMarker pre 0 known ||
          containsUnfencedMarker region (pre.length + regionStart.length) known ||
          containsUnfencedMarker suffix ((pre ++ regionStart ++ region).length + regionEnd.length) known then
        .error .duplicate
      else if hasIssueClosingDirective region then .error .closingDirective
      else .ok ⟨pre,region,suffix⟩ := by
  have a : body.take pre.length = pre := by
    rw [joined]
    simp
  have middle : (body.take (pre ++ regionStart ++ region).length).drop
      (pre.length + regionStart.length) = region := by
    have taken : body.take (pre ++ regionStart ++ region).length = pre ++ regionStart ++ region := by
      rw [joined,append_assoc (pre ++ regionStart ++ region)]
      exact take_left
    rw [taken,← length_append]
    exact drop_left
  have last : body.drop ((pre ++ regionStart ++ region).length + regionEnd.length) = suffix := by
    rw [joined,← length_append]
    exact drop_left
  rw [splitAt,a,middle,last]

theorem IsSplit.of_split (splits : split body known = .ok (some found)) : IsSplit body known found := by
  rw [split] at splits
  split at splits
  next =>
    split at splits
    next start finish starts ends =>
      split at splits
      next => cases splits
      next ordered =>
        obtain ⟨pre,after,joined,place,free,_⟩ :=
          (firstUnfencedIndex_eq_some regionStart_ne_nil).mp starts
        obtain ⟨upto,suffix,also,finishes,open_end,_⟩ :=
          (firstUnfencedIndex_eq_some regionEnd_ne_nil).mp ends
        obtain ⟨region,rfl⟩ := start_before_end (joined.symm.trans also) (by omega)
        rw [Nat.zero_add] at place finishes
        rw [place,finishes,splitAt_eq also] at splits
        split at splits
        next => cases splits
        next clean =>
          split at splits
          next => cases splits
          next undirected =>
            cases splits
            rw [Bool.not_eq_true,Bool.or_eq_false_iff,Bool.or_eq_false_iff] at clean
            rw [place] at free
            rw [finishes] at open_end
            exact ⟨also,free,open_end,clean.1.1,clean.1.2,clean.2,Bool.eq_false_iff.mpr undirected⟩
    next => split at splits <;> cases splits
    next => cases splits
  next => cases splits

theorem IsSplit.split (isSplit : IsSplit body known found)
    (lineWise : LineWise body (known.getD [])) : split body known = .ok (some found) := by
  have joined := isSplit.joined
  obtain ⟨start_rest,start_marked,_⟩ := isMarker_start.starts
  obtain ⟨end_rest,end_marked,_⟩ := isMarker_end.starts
  have from_start : body = found.before ++ '<' :: (start_rest ++ found.region ++ regionEnd ++ found.suffix) := by
    rw [joined,start_marked]
    simp
  have in_before {marker a b : Text} (marks : IsMarker marker)
      (same : body = a ++ marker ++ b) (early : a.length < found.before.length) :
      a.length ∈ known.getD [] := by
    by_contra free
    obtain ⟨between,mem⟩ := before_mark marks (same.symm.trans from_start) early
    have seen : containsUnfencedMarker (a ++ marker ++ between) 0 known = true := by
      apply containsUnfencedMarker_of_free marks
      intro step below
      rw [Nat.zero_add]
      exact lineWise a marker b same marks.unbroken free step below
    rw [← mem,isSplit.before] at seen
    cases seen
  have in_region {a b : Text} (same : body = a ++ regionEnd ++ b)
      (behind : found.before.length ≤ a.length)
      (early : a.length < (found.before ++ regionStart ++ found.region).length) :
      a.length ∈ known.getD [] := by
    by_contra free
    have whole : found.before ++ regionStart ++ (found.region ++ regionEnd ++ found.suffix) =
        a ++ regionEnd ++ b := by
      rw [← same,joined]
      simp
    obtain ⟨middle,rfl⟩ := start_before_end whole behind
    have tail : middle ++ regionEnd ++ b = found.region ++ '<' :: (end_rest ++ found.suffix) := by
      have cut : found.region ++ regionEnd ++ found.suffix = middle ++ regionEnd ++ b := by
        simpa using whole
      rw [← cut,end_marked]
      simp
    have shorter : middle.length < found.region.length := by
      simp only [length_append] at early
      omega
    obtain ⟨between,mem⟩ := before_mark isMarker_end tail shorter
    have seen : containsUnfencedMarker (middle ++ regionEnd ++ between)
        (found.before.length + regionStart.length) known = true := by
      apply containsUnfencedMarker_of_free isMarker_end
      intro step below
      have outside := lineWise _ regionEnd b same isMarker_end.unbroken free step below
      rw [length_append,length_append] at outside
      exact outside
    rw [← mem,isSplit.between] at seen
    cases seen
  have contained : containsPrDescriptionMarker body = true := by
    have marks := contains_append isMarker_start.marks found.before (found.region ++ regionEnd ++ found.suffix)
    rw [joined]
    simpa using marks
  have starts : firstUnfencedIndex (known.getD []) regionStart 0 body = some found.before.length := by
    rw [firstUnfencedIndex_eq_some regionStart_ne_nil]
    refine ⟨found.before,found.region ++ regionEnd ++ found.suffix,?_,?_,isSplit.starts,?_⟩
    · rw [joined]
      simp
    · rw [Nat.zero_add]
    · intro a b same early
      rw [Nat.zero_add]
      exact in_before isMarker_start same early
  have ends : firstUnfencedIndex (known.getD []) regionEnd 0 body =
      some (found.before ++ regionStart ++ found.region).length := by
    rw [firstUnfencedIndex_eq_some regionEnd_ne_nil]
    refine ⟨found.before ++ regionStart ++ found.region,found.suffix,joined,?_,isSplit.ends,?_⟩
    · rw [Nat.zero_add]
    · intro a b same early
      rw [Nat.zero_add]
      by_cases ahead : a.length < found.before.length
      · exact in_before isMarker_end same ahead
      · exact in_region same (not_lt.mp ahead) early
  rw [PrDescriptionRegion.split,if_pos contained,starts,ends]
  simp only
  rw [if_neg,splitAt_eq joined,isSplit.before,isSplit.between,isSplit.behind,isSplit.undirected]
  · rfl
  · rw [length_append,length_append]
    omega

end Splits

section Existing

variable {body : Text} {found : RegionSplit} {prev : Option RegionSplit}

def knownFences (body : Text) : Option (List ℕ) :=
  if bodyHasFence body then some (analyseFences body).offsets else none

theorem analyseLines_plain (plain : bodyHasFence body = false) {ls : List Text}
    (inside : ∀ l ∈ ls, l ∈ Text.splitLines body) (offset : ℕ) :
    (analyseLines none offset ls).offsets = [] := by
  induction ls generalizing offset with
  | nil => rfl
  | cons l ls ih =>
    rw [analyseLines_cons,nextFence,matchOpeningFence_plain plain (inside l mem_cons_self),
      ih (fun other mem => inside other (mem_cons_of_mem _ mem))]
    rfl

theorem knownFences_offsets (body : Text) : (knownFences body).getD [] = (analyseFences body).offsets := by
  rw [knownFences]
  cases fences : bodyHasFence body with
  | true => rfl
  | false => exact (analyseLines_plain fences (fun _ mem => mem) 0).symm

theorem containsUnfencedMarker_known (slice : Text) (offset : ℕ) :
    containsUnfencedMarker slice offset (knownFences body) =
      containsUnfencedMarker slice offset (some (analyseFences body).offsets) := by
  rw [← knownFences_offsets]
  cases knownFences body with
  | none => exact containsUnfencedMarker_none slice
  | some fenced => rfl

theorem existingRegion_eq : existingRegion body = match split body (knownFences body) with
    | .ok none =>
      if bodyHasFence body && (analyseFences body).unterminated then .error .unterminatedFence
      else .ok none
    | found => found := by
  rw [existingRegion,knownFences]
  cases bodyHasFence body <;> rfl

theorem existingRegion_eq_some : existingRegion body = .ok (some found) ↔ IsSplit body (knownFences body) found := by
  rw [existingRegion_eq]
  constructor
  · intro exists_one
    split at exists_one
    next =>
      split at exists_one <;> cases exists_one
    next => exact IsSplit.of_split exists_one
  · intro isSplit
    have lineWise : LineWise body ((knownFences body).getD []) := by
      rw [knownFences_offsets]
      exact lineWise_analyseFences body
    rw [isSplit.split lineWise]

theorem opens_nothing (exists_ok : existingRegion body = .ok prev) :
    fenceAfter none (Text.splitLines (surroundings body prev).1).dropLast = none := by
  cases prev with
  | some found =>
    have isSplit := existingRegion_eq_some.mp exists_ok
    have joined : body = found.before ++ regionStart ++ (found.region ++ regionEnd ++ found.suffix) := by
      rw [isSplit.joined]
      simp
    have fenced := marker_fenced isMarker_start found.before (found.region ++ regionEnd ++ found.suffix)
    rw [← joined,← knownFences_offsets] at fenced
    have closed := mt fenced.mpr isSplit.starts
    rw [Bool.not_eq_true,isSome_eq_false_iff,isNone_iff_eq_none] at closed
    exact closed
  | none =>
    by_cases blank : body = []
    · rw [surroundings,if_pos blank]
      rfl
    · have ended : fenceAfter none (Text.splitLines body) = none := by
        cases fences : bodyHasFence body with
        | false => exact fenceAfter_plain fences fun _ mem => mem
        | true =>
          rw [existingRegion_eq,fences] at exists_ok
          split at exists_ok
          next =>
            split at exists_ok
            next => cases exists_ok
            next terminated =>
              rw [Bool.true_and,analyseFences,analyseLines_unterminated,Bool.not_eq_true,
                isSome_eq_false_iff,isNone_iff_eq_none] at terminated
              exact terminated
          next refused => exact absurd exists_ok (by intro same; exact refused same)
      have ls : Text.splitLines (body ++ ['\n','\n']) = Text.splitLines body ++ [[],[]] :=
        splitOn_append_cons_self body ['\n']
      rw [surroundings,if_neg blank]
      simp only
      rw [ls]
      have front : (Text.splitLines body ++ [[],[]]).dropLast = Text.splitLines body ++ [[]] := by
        rw [dropLast_append_of_ne_nil (by simp)]
        rfl
      rw [front,fenceAfter,foldl_append]
      rw [fenceAfter] at ended
      rw [ended]
      rfl

end Existing

section Updates

variable {digest : Text → Text → Text} {body replacement : Text} {parts : Parts}

def Accepted (replacement : Text) : Prop :=
  ∃ region, split replacement none = .ok (some ⟨[],region,[]⟩)

theorem Accepted.content (accepted : Accepted replacement) : ∃ content,
    replacement = regionStart ++ content ++ regionEnd ∧ hasIssueClosingDirective content = false := by
  obtain ⟨content,splits⟩ := accepted
  have isSplit := IsSplit.of_split splits
  refine ⟨content,?_,isSplit.undirected⟩
  have joined := isSplit.joined
  rw [nil_append,append_nil] at joined
  exact joined

theorem reconcile_eq_ok : reconcilePrDescriptionRegion digest body replacement = .ok parts ↔
    Accepted replacement ∧ ∃ previous, existingRegion body = .ok previous ∧
      parts = ⟨(previous.map RegionSplit.before).getD body,(surroundings body previous).2,
        (surroundings body previous).1 ++ replacement ++ (surroundings body previous).2,
        digest (surroundings body previous).1 (surroundings body previous).2⟩ := by
  rw [reconcilePrDescriptionRegion]
  constructor
  · intro ok
    split at ok
    next => cases ok
    next => cases ok
    next managed splits =>
      split at ok
      next alone =>
        split at ok
        next => cases ok
        next previous exists_ok =>
          cases ok
          obtain ⟨a,region,last⟩ := managed
          obtain ⟨rfl,rfl⟩ := alone
          exact ⟨⟨region,splits⟩,previous,exists_ok,rfl⟩
      next => cases ok
  · intro ⟨⟨region,splits⟩,previous,exists_ok,same⟩
    rw [splits]
    simp only [and_self,if_true]
    rw [exists_ok,same]

def surroundingsOf (body : Text) : Text × Text :=
  match existingRegion body with
  | .ok previous => surroundings body previous
  | .error _ => (body,[])

def regionContent (replacement : Text) : Text :=
  (replacement.drop regionStart.length).take (replacement.length - regionStart.length - regionEnd.length)

/-- In the text of a replacement and its surroundings no fence is open at the end marker, and no
other marker stands outside of the fences. -/
def Undisturbed (before replacement after : Text) : Prop :=
  let fenced := (analyseFences (before ++ replacement ++ after)).offsets
  before.length + replacement.length - regionEnd.length ∉ fenced ∧
    containsUnfencedMarker before 0 (some fenced) = false ∧
    containsUnfencedMarker (regionContent replacement) (before.length + regionStart.length) (some fenced) = false ∧
    containsUnfencedMarker after (before.length + replacement.length) (some fenced) = false

/-- What is kept outside of the region, and what every further update makes of the result. -/
def KeepsRegion (digest : Text → Text → Text) (body replacement : Text) (parts : Parts) : Prop :=
  ∃ separator region, body = parts.before ++ region ++ parts.suffix ∧
    (region = [] ∨ ∃ content, region = regionStart ++ content ++ regionEnd) ∧
    (separator = [] ∨ separator = ['\n','\n']) ∧
    parts.finalBody = parts.before ++ separator ++ replacement ++ parts.suffix ∧
    ∀ next, Accepted next → reconcilePrDescriptionRegion digest parts.finalBody next =
      .ok ⟨parts.before ++ separator,parts.suffix,
        parts.before ++ separator ++ next ++ parts.suffix,parts.outsideRegionDigest⟩

theorem existingRegion_updated {pre after content : Text} (undirected : hasIssueClosingDirective content = false)
    (closed : fenceAfter none (Text.splitLines pre).dropLast = none) :
    existingRegion (pre ++ (regionStart ++ content ++ regionEnd) ++ after) = .ok (some ⟨pre,content,after⟩) ↔
      Undisturbed pre (regionStart ++ content ++ regionEnd) after := by
  have joined : pre ++ (regionStart ++ content ++ regionEnd) ++ after =
      pre ++ regionStart ++ content ++ regionEnd ++ after := by simp
  have from_start : pre ++ (regionStart ++ content ++ regionEnd) ++ after =
      pre ++ regionStart ++ (content ++ regionEnd ++ after) := by simp
  have free : pre.length ∉ (analyseFences (pre ++ (regionStart ++ content ++ regionEnd) ++ after)).offsets := by
    rw [from_start,marker_fenced isMarker_start,closed]
    exact Bool.false_ne_true
  have inner : regionContent (regionStart ++ content ++ regionEnd) = content := by
    rw [regionContent,append_assoc,drop_left]
    simp
  have place : pre.length + (regionStart ++ content ++ regionEnd).length - regionEnd.length =
      (pre ++ regionStart ++ content).length := by
    simp only [length_append]
    omega
  have behind : pre.length + (regionStart ++ content ++ regionEnd).length =
      (pre ++ regionStart ++ content).length + regionEnd.length := by
    simp only [length_append]
    omega
  rw [existingRegion_eq_some,Undisturbed,place,inner,behind]
  constructor
  · intro isSplit
    refine ⟨?_,?_,?_,?_⟩
    · rw [← knownFences_offsets]
      exact isSplit.ends
    · rw [← containsUnfencedMarker_known]
      exact isSplit.before
    · rw [← containsUnfencedMarker_known]
      exact isSplit.between
    · rw [← containsUnfencedMarker_known]
      exact isSplit.behind
  · intro ⟨ends,ahead,between,after_it⟩
    rw [← containsUnfencedMarker_known] at ahead between after_it
    refine ⟨joined,?_,?_,ahead,between,after_it,undirected⟩
    · rw [knownFences_offsets]
      exact free
    · rw [knownFences_offsets]
      exact ends

theorem surroundings_body {previous : Option RegionSplit}
    (exists_ok : existingRegion body = .ok previous) : ∃ separator region,
      body = (previous.map RegionSplit.before).getD body ++ region ++ (surroundings body previous).2 ∧
      (region = [] ∨ ∃ content, region = regionStart ++ content ++ regionEnd) ∧
      (separator = [] ∨ separator = ['\n','\n']) ∧
      (surroundings body previous).1 = (previous.map RegionSplit.before).getD body ++ separator := by
  cases previous with
  | some found =>
    have isSplit := existingRegion_eq_some.mp exists_ok
    refine ⟨[],regionStart ++ found.region ++ regionEnd,?_,.inr ⟨_,rfl⟩,.inl rfl,?_⟩
    · exact isSplit.joined.trans (by simp [surroundings])
    · exact (append_nil _).symm
  | none =>
    by_cases blank : body = []
    · refine ⟨[],[],?_,.inl rfl,.inl rfl,?_⟩
      · simp [surroundings]
      · rw [surroundings,if_pos blank,blank]
        rfl
    · refine ⟨['\n','\n'],[],?_,.inl rfl,.inr rfl,?_⟩
      · simp [surroundings]
      · rw [surroundings,if_neg blank]
        rfl

/-- An accepted update keeps its region for every further update exactly when nothing in its result
disturbs the search for it. -/
theorem reconcile_keepsRegion_iff (digest : Text → Text → Text) {body replacement : Text}
    {parts : Parts}
    (accepted : reconcilePrDescriptionRegion digest body replacement = .ok parts) :
    KeepsRegion digest body replacement parts ↔
      Undisturbed (surroundingsOf body).1 replacement (surroundingsOf body).2 := by
  obtain ⟨replaces,previous,exists_ok,rfl⟩ := reconcile_eq_ok.mp accepted
  obtain ⟨content,rfl,undirected⟩ := replaces.content
  obtain ⟨separator,region,whole,marked,blank,split⟩ := surroundings_body exists_ok
  have known : surroundingsOf body = surroundings body previous := by
    rw [surroundingsOf,exists_ok]
  rw [known]
  have again := @existingRegion_updated (surroundings body previous).1
    (surroundings body previous).2 content undirected (opens_nothing exists_ok)
  constructor
  · intro ⟨other,_,_,_,_,final,repeats⟩
    rw [← again]
    obtain ⟨_,found,exists_again,same⟩ := reconcile_eq_ok.mp (repeats _ replaces)
    have before : (surroundings body previous).1 =
        (previous.map RegionSplit.before).getD body ++ other :=
      append_cancel_right (append_cancel_right final)
    cases found with
    | none =>
      have grown := congrArg (length ∘ Parts.before) same
      simp only [Function.comp,map_none,getD_none] at grown
      rw [← before] at grown
      have filled : 0 < regionStart.length := length_pos_iff.mpr regionStart_ne_nil
      simp only [length_append] at grown
      omega
    | some found =>
      have ahead : (previous.map RegionSplit.before).getD body ++ other = found.before :=
        congrArg Parts.before same
      have behind : (surroundings body previous).2 = found.suffix := congrArg Parts.suffix same
      have isSplit := existingRegion_eq_some.mp exists_again
      rw [← before] at ahead
      have joined := isSplit.joined
      simp only at joined
      rw [← ahead,← behind] at joined
      have middle : content = found.region := by
        simpa using joined
      obtain ⟨first,region,last⟩ := found
      simp only at ahead behind middle
      rw [exists_again,ahead,behind,middle]
  · intro undisturbed
    refine ⟨separator,region,whole,marked,blank,?_,?_⟩
    · rw [split]
    · intro next next_accepted
      rw [reconcile_eq_ok]
      refine ⟨next_accepted,_,again.mpr undisturbed,?_⟩
      rw [← split]
      rfl

/-- A body without a region that gets a short one. -/
theorem reconcile_keepsRegion_iff_short :
    let replacement := regionStart ++ ['\n','x','\n'] ++ regionEnd
    KeepsRegion (fun _ _ => []) ['b'] replacement
        ⟨['b'],[],['b','\n','\n'] ++ replacement,[]⟩ ↔
      Undisturbed (surroundingsOf ['b']).1 replacement (surroundingsOf ['b']).2 := by
  intro replacement
  apply reconcile_keepsRegion_iff
  decide +kernel

/-- A region that opens a fence and does not close it hides its own end marker. -/
theorem unclosed_fence_hides_region : ¬ ∀ body description replacement parts,
    framePrDescriptionRegion description = .ok replacement →
    reconcilePrDescriptionRegion (fun _ _ => []) body replacement = .ok parts →
    KeepsRegion (fun _ _ => []) body replacement parts := by
  intro all
  let replacement := regionStart ++ ['\n','\x60','\x60','\x60','\n'] ++ regionEnd
  have kept := all [] ['\x60','\x60','\x60'] replacement ⟨[],[],replacement,[]⟩
    (by decide +kernel) (by decide +kernel)
  obtain ⟨separator,region,_,_,_,_,repeats⟩ := kept
  have accepted : Accepted replacement :=
    ⟨['\n','\x60','\x60','\x60','\n'],by decide +kernel⟩
  have again := repeats replacement accepted
  have lost : reconcilePrDescriptionRegion (fun _ _ => []) replacement replacement =
      .error .malformed := by decide +kernel
  cases lost.symm.trans again

end Updates

end Keiko.PrDescriptionRegion
