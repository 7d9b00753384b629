import Keiko.LineOffsets
import Keiko.Library.Utf8Cut
import Mathlib.Data.List.Infix

/-! Edits of a text by positions, applied from left to right. The bounded form stops at a number of
bytes, and what it returns is a front of what the plain form returns. -/
namespace Keiko.TextEdits
open Keiko.Library Keiko.Library.Units Keiko.LineOffsets List

section Edits

structure EditorPosition where
  line : ℤ
  column : ℤ

structure EditorTextEdit where
  start : EditorPosition
  stop : EditorPosition
  newText : Units

def toLanguagePosition (position : EditorPosition) : LanguagePosition := ⟨position.line,position.column⟩

variable (text : Units) (lineStarts : List ℕ)

def positionToOffset (position : EditorPosition) : ℤ :=
  if position.line < 0 then 0
  else if lineStarts.length ≤ position.line then text.length
  else LineOffsets.positionToOffset text lineStarts (toLanguagePosition position)

structure ResolvedEdit where
  start : ℤ
  stop : ℤ
  newText : Units

def resolveEdit (edit : EditorTextEdit) : ResolvedEdit :=
  let start := positionToOffset text lineStarts edit.start
  ⟨start,max start (positionToOffset text lineStarts edit.stop),edit.newText⟩

def comesFirst (a b : ResolvedEdit) : Bool :=
  if a.start ≠ b.start then a.start < b.start else a.stop ≤ b.stop

def slice (start stop : ℤ) : Units := (text.take stop.toNat).drop start.toNat

variable (original : Units) (edits : List EditorTextEdit) (maxBytes : ℕ)

def resolved : List ResolvedEdit :=
  (edits.map (resolveEdit original (computeLineStarts original))).mergeSort comesFirst

structure OverlappingPatchEditError where
  message : Text
  deriving DecidableEq

def overlapping : OverlappingPatchEditError := ⟨"patch contains overlapping edits".toList⟩

def applyFrom (cursor : ℤ) (out : Units) : List ResolvedEdit → Except OverlappingPatchEditError Units
  | [] => .ok (out ++ original.drop cursor.toNat)
  | edit :: rest =>
    if edit.start < cursor then .error overlapping
    else applyFrom edit.stop (out ++ slice original cursor edit.start ++ edit.newText) rest

def applyTextEditsToText : Except OverlappingPatchEditError Units :=
  if edits = [] then .ok original else applyFrom original 0 [] (resolved original edits)

/-- The output so far, its bytes, and whether something was left out. -/
structure ByteLimitState where
  out : Units
  bytes : ℕ
  truncated : Bool

def appendCharacters : List Units → ByteLimitState → ByteLimitState
  | [], state => state
  | character :: rest, state =>
    if maxBytes < state.bytes + characterBytes character then { state with truncated := true }
    else appendCharacters rest
      { state with out := state.out ++ character, bytes := state.bytes + characterBytes character }

def appendWithinByteLimit (state : ByteLimitState) : ByteLimitState :=
  if state.truncated ∨ text = [] then state
  else if maxBytes ≤ state.bytes then { state with truncated := true }
  else appendCharacters maxBytes (characters text) state

def applyWithin (cursor : ℤ) (state : ByteLimitState) :
    List ResolvedEdit → Except OverlappingPatchEditError ByteLimitState
  | [] => .ok (appendWithinByteLimit (original.drop cursor.toNat) maxBytes state)
  | edit :: rest =>
    if edit.start < cursor then .error overlapping
    else applyWithin edit.stop (appendWithinByteLimit edit.newText maxBytes
      (appendWithinByteLimit (slice original cursor edit.start) maxBytes state)) rest

structure BoundedTextEditResult where
  text : Units
  truncated : Bool

def applyTextEditsToTextWithinLimit : Except OverlappingPatchEditError BoundedTextEditResult :=
  let result := if edits = [] then .ok (appendWithinByteLimit original maxBytes ⟨[],0,false⟩)
    else applyWithin original maxBytes 0 ⟨[],0,false⟩ (resolved original edits)
  result.map fun state => ⟨state.out,state.truncated⟩

end Edits

section Limits

variable {maxBytes : ℕ} {state : ByteLimitState} {tokens : List Units}

/-- The state behind some characters: it holds those that fit. -/
def Within (maxBytes : ℕ) (tokens : List Units) (state : ByteLimitState) : Prop :=
  state = ⟨(fittingFrom maxBytes 0 tokens).flatten,weight (fittingFrom maxBytes 0 tokens),
    fittingFrom maxBytes 0 tokens ≠ tokens⟩

theorem appendCharacters_eq (more : List Units) (state : ByteLimitState) (going : state.truncated = false) :
    appendCharacters maxBytes more state =
      ⟨state.out ++ (fittingFrom maxBytes state.bytes more).flatten,
        state.bytes + weight (fittingFrom maxBytes state.bytes more),
        fittingFrom maxBytes state.bytes more ≠ more⟩ := by
  induction more generalizing state with
  | nil =>
    obtain ⟨out,bytes,truncated⟩ := state
    cases going
    simp [appendCharacters,fittingFrom]
  | cons token more ih =>
    rw [appendCharacters,fittingFrom]
    split
    next => simp
    next =>
      rw [ih ⟨state.out ++ token,state.bytes + characterBytes token,state.truncated⟩ going]
      simp [add_assoc]

theorem Within.append (within : Within maxBytes tokens state) (text : Units) :
    Within maxBytes (tokens ++ characters text) (appendWithinByteLimit text maxBytes state) := by
  unfold Within at within ⊢
  rw [fittingFrom_append]
  by_cases all : fittingFrom maxBytes 0 tokens = tokens
  · rw [if_pos all,Nat.zero_add]
    rw [all] at within
    have going : state.truncated = false := by simp [within]
    have bytes : state.bytes = weight tokens := by rw [within]
    rw [appendWithinByteLimit,going]
    simp only [Bool.false_eq_true,false_or]
    split
    next empty =>
      subst empty
      simp [within,characters,fittingFrom]
    next filled =>
      split
      next full =>
        have some_tokens : characters text ≠ [] := fun empty => filled (by rw [← flatten_characters text,empty]; rfl)
        rw [fittingFrom_none (by omega)]
        simp [within,some_tokens]
      next =>
        rw [appendCharacters_eq _ _ going,bytes]
        simp [within]
  · have stopped : state.truncated = true := by simp [within,all]
    have short : fittingFrom maxBytes 0 tokens ≠ tokens ++ characters text := by
      intro same
      have le := @Units.fittingFrom_prefix maxBytes 0 tokens
      have length := le.length_le
      rw [same,length_append] at length
      have none_there : characters text = [] := length_eq_zero_iff.mp (by omega)
      rw [none_there,append_nil] at same
      exact all same
    rw [if_neg all,appendWithinByteLimit,if_pos (.inl stopped),within]
    simp [all,short]

/-- What the loops append: the text between two edits, and the new text of the edit behind it. -/
def piecesFrom (original : Units) (cursor : ℤ) : List ResolvedEdit → List Units
  | [] => [original.drop cursor.toNat]
  | edit :: rest => slice original cursor edit.start :: edit.newText :: piecesFrom original edit.stop rest

def pieces (original : Units) (edits : List EditorTextEdit) : List Units :=
  if edits = [] then [original] else piecesFrom original 0 (resolved original edits)

theorem applyWithin_eq (original : Units) (cursor : ℤ) (out : Units) (sorted : List ResolvedEdit)
    (within : Within maxBytes tokens state) :
    (∃ error, applyFrom original cursor out sorted = .error error ∧
      applyWithin original maxBytes cursor state sorted = .error error) ∨
    ∃ result, applyFrom original cursor out sorted = .ok (out ++ (piecesFrom original cursor sorted).flatten) ∧
      applyWithin original maxBytes cursor state sorted = .ok result ∧
        Within maxBytes (tokens ++ (piecesFrom original cursor sorted).flatMap characters) result := by
  induction sorted generalizing cursor out tokens state with
  | nil => exact .inr ⟨_,by simp [applyFrom,piecesFrom],rfl,by simpa [piecesFrom] using within.append _⟩
  | cons edit rest ih =>
    rw [applyFrom,applyWithin]
    split
    next => exact .inl ⟨overlapping,rfl,rfl⟩
    next =>
      refine (ih edit.stop (out ++ slice original cursor edit.start ++ edit.newText)
        ((within.append (slice original cursor edit.start)).append edit.newText)).imp_right ?_
      rintro ⟨result,whole,bounded,ends⟩
      exact ⟨result,by rw [whole,piecesFrom]; simp,bounded,by simpa [piecesFrom] using ends⟩

end Limits

section Agreement

variable {maxBytes : ℕ} {state : ByteLimitState} {parts : List Units}

theorem characters_of_mem {token text : Units} (mem : token ∈ characters text) : characters token = [token] := by
  rcases mem_characters mem with ⟨c,rfl⟩ | ⟨c,d,rfl,high,low⟩
  · rfl
  · simp [characters,high,low]

/-- Characters that come apart take no fewer bytes than the text they make. -/
theorem byteLength_flatten_le {tokens : List Units} (each : ∀ token ∈ tokens, characters token = [token]) :
    byteLength tokens.flatten ≤ weight tokens := by
  have apart : tokens.flatMap characters = tokens := by
    rw [flatMap_congr each]
    exact flatMap_singleton' tokens
  obtain ⟨other,start,_,le⟩ := (merges_pieces tokens).cut_whole (prefix_refl _)
  rw [apart] at start
  exact le.trans (weight_mono start)

theorem Within.agrees (within : Within maxBytes (parts.flatMap characters) state) :
    state.out <+: parts.flatten ∧ byteLength state.out ≤ maxBytes ∧
      (state.truncated = true ↔ state.out ≠ parts.flatten) ∧
      (characters state.out <+: characters parts.flatten ∨
        ∃ front back, parts = front ++ back ∧ state.out = front.flatten) := by
  have fits := fittingFrom_fits (Nat.zero_le maxBytes) (parts.flatMap characters)
  have whole : (parts.flatMap characters).flatten = parts.flatten := by
    rw [flatMap_def,flatten_flatten,map_map]
    exact congrArg flatten ((map_congr_left fun part _ => flatten_characters part).trans (map_id parts))
  have fresh {token : Units} (mem : token ∈ parts.flatMap characters) : characters token = [token] := by
    obtain ⟨part,_,inside⟩ := mem_flatMap.mp mem
    exact characters_of_mem inside
  have out : state.out = (fittingFrom maxBytes 0 (parts.flatMap characters)).flatten := by rw [within]
  have start := @Units.fittingFrom_prefix maxBytes 0 (parts.flatMap characters)
  have same : state.truncated = true ↔
      fittingFrom maxBytes 0 (parts.flatMap characters) ≠ parts.flatMap characters := by
    rw [within]
    exact decide_eq_true_iff
  rw [out,same]
  rw [Nat.zero_add] at fits
  refine ⟨?_,(byteLength_flatten_le fun token mem => fresh (start.subset mem)).trans fits,not_congr ?_,?_⟩
  · rw [← whole]
    exact IsPrefix.flatten start
  · refine ⟨fun all => by rw [all,whole],fun all => ?_⟩
    have some_units : ∀ token ∈ parts.flatMap characters, token ≠ [] := by
      intro token mem
      obtain ⟨part,_,inside⟩ := mem_flatMap.mp mem
      exact ne_nil_of_mem_characters inside
    exact start.eq_of_length_le (prefix_of_flatten some_units (prefix_refl _) start (by rw [all,whole])).length_le
  · rcases (merges_pieces parts).cut_apart start with ⟨other,⟨back,split⟩,text,_⟩ |
        ⟨other,c,d,high,low,⟨back,split⟩,text,_⟩
    · rw [← text,characters_front split.symm]
      exact .inl ⟨back,split⟩
    · have tail := congrArg flatten split
      rw [flatten_characters,flatten_append,flatten_append,append_assoc] at tail
      obtain ⟨front,last,split,ends⟩ := ends_piece start text tail.symm high low
      exact .inr ⟨front,last,split,ends.symm⟩

/-- The bounded form refuses the same edits. Otherwise it returns a front of the plain result, which ends
inside of a character only where a slice or an insertion does. -/
theorem applyTextEditsToTextWithinLimit_agrees (original : Units) (edits : List EditorTextEdit) (maxBytes : ℕ) :
    (∃ error, applyTextEditsToText original edits = .error error ∧
      applyTextEditsToTextWithinLimit original edits maxBytes = .error error) ∨
    ∃ text result, applyTextEditsToText original edits = .ok text ∧
      applyTextEditsToTextWithinLimit original edits maxBytes = .ok result ∧
      result.text <+: text ∧ byteLength result.text ≤ maxBytes ∧ (result.truncated = true ↔ result.text ≠ text) ∧
      (characters result.text <+: characters text ∨
        ∃ front back, pieces original edits = front ++ back ∧ result.text = front.flatten) := by
  have first : Within maxBytes [] ⟨[],0,false⟩ := by simp [Within,fittingFrom]
  rw [applyTextEditsToText,applyTextEditsToTextWithinLimit,pieces]
  by_cases none_there : edits = []
  · rw [if_pos none_there,if_pos none_there,if_pos none_there]
    have ends := @Within.agrees maxBytes _ [original] (by simpa using first.append original)
    rw [flatten_singleton] at ends
    exact .inr ⟨_,_,rfl,rfl,ends⟩
  · rw [if_neg none_there,if_neg none_there,if_neg none_there]
    rcases applyWithin_eq original 0 [] (resolved original edits) first with ⟨error,plain,bounded⟩ |
      ⟨result,plain,bounded,ends⟩
    · rw [plain,bounded]
      exact .inl ⟨error,rfl,rfl⟩
    · rw [plain,bounded]
      exact .inr ⟨_,_,rfl,rfl,ends.agrees⟩

end Agreement

section Overlaps

variable {text original : Units} {sorted : List ResolvedEdit} {edits : List EditorTextEdit}

theorem positionToOffset_nonneg (text : Units) (position : EditorPosition) :
    0 ≤ positionToOffset text (computeLineStarts text) position := by
  unfold positionToOffset
  split_ifs
  · exact le_refl _
  · exact Int.natCast_nonneg _
  · exact (offsetOf_bounds text (toLanguagePosition position)).1

theorem comesFirst_iff {a b : ResolvedEdit} : comesFirst a b = true ↔
    a.start < b.start ∨ a.start = b.start ∧ a.stop ≤ b.stop := by
  unfold comesFirst
  split
  · rw [decide_eq_true_iff]
    omega
  · rw [decide_eq_true_iff]
    omega

def Apart (a b : ResolvedEdit) : Prop := a.stop ≤ b.start ∨ b.stop ≤ a.start

theorem applyFrom_ok_iff {cursor : ℤ} {out : Units} (ordered : ∀ edit ∈ sorted, edit.start ≤ edit.stop) :
    (∃ text, applyFrom original cursor out sorted = .ok text) ↔
      (∀ edit ∈ sorted, cursor ≤ edit.start) ∧ sorted.Pairwise fun a b => a.stop ≤ b.start := by
  induction sorted generalizing cursor out with
  | nil => simp [applyFrom]
  | cons edit rest ih =>
    obtain ⟨here,later⟩ := forall_mem_cons.mp ordered
    rw [applyFrom,forall_mem_cons,pairwise_cons]
    split
    next before => simp [before]
    next reached =>
      rw [ih later]
      constructor
      · rintro ⟨behind,pairwise⟩
        exact ⟨⟨not_lt.mp reached,fun other mem => by have := behind other mem; omega⟩,behind,pairwise⟩
      · rintro ⟨_,behind,pairwise⟩
        exact ⟨behind,pairwise⟩

/-- Edits are refused exactly where two of them overlap, in whatever order they are listed. -/
theorem applyTextEditsToText_ok_iff (original : Units) (edits : List EditorTextEdit) :
    (∃ text, applyTextEditsToText original edits = .ok text) ↔ edits.Pairwise fun a b =>
      Apart (resolveEdit original (computeLineStarts original) a)
        (resolveEdit original (computeLineStarts original) b) := by
  let resolve := resolveEdit original (computeLineStarts original)
  have perm : resolved original edits ~ edits.map resolve := mergeSort_perm _ _
  have member {edit : ResolvedEdit} (mem : edit ∈ resolved original edits) :
      0 ≤ edit.start ∧ edit.start ≤ edit.stop := by
    obtain ⟨source,_,rfl⟩ := mem_map.mp (perm.mem_iff.mp mem)
    exact ⟨positionToOffset_nonneg original source.start,le_max_left _ _⟩
  have sorted : (resolved original edits).Pairwise fun a b => comesFirst a b = true := by
    apply pairwise_mergeSort
    · intro a b c one two
      rw [comesFirst_iff] at one two ⊢
      omega
    · intro a b
      rw [Bool.or_eq_true,comesFirst_iff,comesFirst_iff]
      omega
  have turned : (resolved original edits).Pairwise (fun a b => a.stop ≤ b.start) ↔
      (resolved original edits).Pairwise Apart := by
    refine ⟨fun behind => behind.imp .inl,fun apart => ?_⟩
    refine (pairwise_and_iff.mpr ⟨sorted,apart⟩).imp_of_mem fun {a b} one two both => ?_
    have one := member one
    have two := member two
    obtain ⟨first,apart⟩ := both
    rw [comesFirst_iff] at first
    unfold Apart at apart
    omega
  calc (∃ text, applyTextEditsToText original edits = .ok text)
      ↔ (resolved original edits).Pairwise fun a b => a.stop ≤ b.start := by
        rw [applyTextEditsToText]
        split
        next none_there => simp [none_there,resolved]
        next =>
          rw [applyFrom_ok_iff fun edit mem => (member mem).2]
          exact and_iff_right fun edit mem => (member mem).1
    _ ↔ (edits.map resolve).Pairwise Apart := turned.trans (perm.pairwise_iff fun apart => apart.symm)
    _ ↔ _ := pairwise_map

end Overlaps

end Keiko.TextEdits
