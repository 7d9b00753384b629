import Keiko.Library.CodeUnit
import Keiko.Library.Occurrences

/-! Removing the exact secrets that a caller holds from a text. Every occurrence of a secret is a
span; spans that overlap are merged and replaced as one, and a span may leave its line breaks. -/
namespace Keiko.SecretRedaction
open Keiko.Library Search List Bool

section Patterns

/-- The characters that `escapeRegExp` puts a backslash before. -/
def isOperator (c : CodeUnit) : Bool := (units ".*+?^$\x7b\x7d()|[]\\").contains c

def escapeRegExp (value : Units) : Units :=
  value.flatMap fun c => if isOperator c then [unit '\\',c] else [c]

/-- The text that a regular expression without operators matches: an operator behind a backslash
stands for itself, as does every other character. -/
def literalOf : Units → Option Units
  | [] => some []
  | c :: rest =>
    if c = unit '\\' then match rest with
      | [] => none
      | d :: rest => if isOperator d then (literalOf rest).map (d :: ·) else none
    else if isOperator c then none
    else (literalOf rest).map (c :: ·)

theorem literalOf_escaped {c : CodeUnit} (operator : isOperator c = true) (rest : Units) :
    literalOf (unit '\\' :: c :: rest) = (literalOf rest).map (c :: ·) := by
  rw [literalOf.eq_def]
  simp only [if_true]
  rw [if_pos operator]

theorem literalOf_plain {c : CodeUnit} (plain : isOperator c = false) (rest : Units) :
    literalOf (c :: rest) = (literalOf rest).map (c :: ·) := by
  have other : c ≠ unit '\\' := by
    intro same
    rw [same] at plain
    revert plain
    decide
  rw [literalOf.eq_def]
  simp only [if_neg other,plain,false_eq_true,if_false]

theorem literalOf_escapeRegExp (v : Units) : literalOf (escapeRegExp v) = some v := by
  induction v with
  | nil => rfl
  | cons c v ih =>
    rw [escapeRegExp,flatMap_cons,← escapeRegExp]
    cases operator : isOperator c with
    | true =>
      rw [if_pos rfl,cons_append,singleton_append,literalOf_escaped operator,ih]
      rfl
    | false =>
      rw [if_neg Bool.false_ne_true,singleton_append,literalOf_plain operator,ih]
      rfl

def matchAll (pattern input : Units) : List Nat :=
  match literalOf pattern with
  | some literal => occurrences literal input
  | none => []

end Patterns

section Spans

structure RedactionSpan where
  start : Nat
  stop : Nat
  replacement : Units
  deriving DecidableEq

def redacted : Units := units "[REDACTED]"

variable (input : Units)

def slice (start stop : Nat) : Units := (input.drop start).take (stop - start)

/-- What `/\r?\n/g` finds, joined. -/
def lineBreaks : Units → Units
  | [] => []
  | c :: rest =>
    if c = unit '\r' ∧ rest.head? = some (unit '\n') then c :: lineBreaks rest
    else if c = unit '\n' then c :: lineBreaks rest
    else lineBreaks rest

def redactedSourceSpan (span replacement : Units) (preserveSourceLineBreaks : Bool) : Units :=
  if preserveSourceLineBreaks then replacement ++ lineBreaks span else replacement

def literalSecretSpans (secrets : List Units) (preserve : Bool) : List RedactionSpan :=
  (secrets.filter fun secret => decide (0 < secret.length)).flatMap fun secret =>
    (matchAll (escapeRegExp secret) input).map fun index =>
      ⟨index,index + secret.length,redactedSourceSpan (slice input index (index + secret.length)) redacted preserve⟩

def comesFirst (a b : RedactionSpan) : Bool :=
  decide (a.start < b.start) || decide (a.start = b.start ∧ b.stop ≤ a.stop)

def mergeSpans (input : Units) (preserve : Bool) (previous : RedactionSpan) : List RedactionSpan → List RedactionSpan
  | [] => [previous]
  | span :: rest =>
    if span.start < previous.stop then if span.stop ≤ previous.stop then mergeSpans input preserve previous rest
      else mergeSpans input preserve ⟨previous.start,span.stop,
        redactedSourceSpan (slice input previous.start span.stop) redacted preserve⟩ rest
    else previous :: mergeSpans input preserve span rest

def merged (preserve : Bool) : List RedactionSpan → List RedactionSpan
  | [] => []
  | span :: rest => mergeSpans input preserve span rest

def joinChunks (input : Units) (start : Nat) : List RedactionSpan → Units
  | [] => input.drop start
  | span :: rest => slice input start span.start ++ span.replacement ++ joinChunks input span.stop rest

def replaceCodeSpans (spans : List RedactionSpan) (preserveSourceLineBreaks : Bool) :
    Units :=
  joinChunks input 0 (merged input preserveSourceLineBreaks (spans.mergeSort comesFirst))

def redactLiteralSpans (secrets : List Units) (preserveSourceLineBreaks : Bool) :
    Units :=
  replaceCodeSpans input (literalSecretSpans input secrets preserveSourceLineBreaks) preserveSourceLineBreaks

def redactSecretLiterals (secrets : List Units) : Units :=
  redactLiteralSpans input secrets false

end Spans

section Merging

variable {input : Units} {preserve : Bool} {span prev : RedactionSpan} {spans : List RedactionSpan}

structure IsSpan (input : Units) (preserve : Bool) (span : RedactionSpan) : Prop where
  some_units : span.start < span.stop
  inside : span.stop ≤ input.length
  replaces : span.replacement = redactedSourceSpan (slice input span.start span.stop) redacted preserve

def Covers (spans : List RedactionSpan) (place : Nat) : Prop :=
  ∃ span ∈ spans, span.start ≤ place ∧ place < span.stop

theorem covers_cons {place : Nat} : Covers (span :: spans) place ↔
    (span.start ≤ place ∧ place < span.stop) ∨ Covers spans place := by
  simp [Covers]

def Apart (index : Nat) : List RedactionSpan → Prop
  | [] => True
  | span :: rest => index ≤ span.start ∧ Apart span.stop rest

structure Merges (input : Units) (preserve : Bool) (spans result : List RedactionSpan) : Prop where
  all : ∀ span ∈ result, IsSpan input preserve span
  apart : ∀ index, (∀ span ∈ spans, index ≤ span.start) → Apart index result
  covers : ∀ place, Covers result place ↔ Covers spans place

theorem mergeSpans_merges (first : IsSpan input preserve prev) (all : ∀ span ∈ spans, IsSpan input preserve span)
    (behind : ∀ span ∈ spans, prev.start ≤ span.start)
    (sorted : spans.Pairwise fun a b => a.start ≤ b.start) :
    Merges input preserve (prev :: spans) (mergeSpans input preserve prev spans) := by
  induction spans generalizing prev with
  | nil =>
    refine ⟨?_,?_,fun _ => Iff.rfl⟩
    · intro span mem
      rw [mem_singleton.mp mem]
      exact first
    · intro i pre
      exact ⟨pre prev mem_cons_self,trivial⟩
  | cons span rest ih =>
    obtain ⟨later,ordered⟩ := pairwise_cons.mp sorted
    have one := all span mem_cons_self
    have others : ∀ other ∈ rest, IsSpan input preserve other :=
      fun other mem => all other (mem_cons_of_mem span mem)
    have start := behind span mem_cons_self
    have starts : ∀ other ∈ rest, prev.start ≤ other.start :=
      fun other mem => behind other (mem_cons_of_mem span mem)
    rw [mergeSpans]
    split
    next overlaps =>
      split
      next within =>
        obtain ⟨made,apart,covers⟩ := ih first others starts ordered
        refine ⟨made,?_,?_⟩
        · intro i pre
          apply apart i
          intro other mem
          rcases mem_cons.mp mem with rfl | inside
          · exact pre _ mem_cons_self
          · exact pre other (mem_cons_of_mem _ (mem_cons_of_mem _ inside))
        · intro place
          rw [covers,covers_cons,covers_cons,covers_cons]
          constructor
          · intro covered
            exact covered.imp_right .inr
          · intro covered
            obtain here | here | here := covered
            · exact .inl here
            · exact .inl ⟨by omega,by omega⟩
            · exact .inr here
      next beyond =>
        have less := first.some_units
        have wider : IsSpan input preserve ⟨prev.start,span.stop,
            redactedSourceSpan (slice input prev.start span.stop) redacted preserve⟩ :=
          ⟨by change prev.start < span.stop; omega,one.inside,rfl⟩
        obtain ⟨made,apart,covers⟩ := ih wider others starts ordered
        refine ⟨made,?_,?_⟩
        · intro i pre
          apply apart i
          intro other mem
          rcases mem_cons.mp mem with rfl | inside
          · exact pre prev mem_cons_self
          · exact pre other (mem_cons_of_mem _ (mem_cons_of_mem _ inside))
        · intro place
          rw [covers,covers_cons,covers_cons,covers_cons]
          constructor
          · intro covered
            obtain ⟨low,high⟩ | here := covered
            · change prev.start ≤ place at low
              change place < span.stop at high
              by_cases old : place < prev.stop
              · exact .inl ⟨low,old⟩
              · exact .inr (.inl ⟨by omega,high⟩)
            · exact .inr (.inr here)
          · intro covered
            obtain ⟨low,high⟩ | ⟨low,high⟩ | here := covered
            · exact .inl ⟨low,by change place < span.stop; omega⟩
            · exact .inl ⟨by change prev.start ≤ place; omega,high⟩
            · exact .inr here
    next behind_it =>
      obtain ⟨made,apart,covers⟩ := ih one others later ordered
      refine ⟨?_,?_,?_⟩
      · intro other mem
        rcases mem_cons.mp mem with rfl | inside
        · exact first
        · exact made other inside
      · intro i pre
        refine ⟨pre prev mem_cons_self,apart prev.stop ?_⟩
        intro other mem
        rcases mem_cons.mp mem with rfl | inside
        · omega
        · have next := later other inside
          omega
      · intro place
        rw [covers_cons,covers,← covers_cons]

theorem pairwise_comesFirst (spans : List RedactionSpan) :
    (spans.mergeSort comesFirst).Pairwise fun a b => comesFirst a b = true := by
  apply pairwise_mergeSort
  · intro a b c first second
    simp only [comesFirst,or_eq_true,decide_eq_true_eq] at first second ⊢
    omega
  · intro a b
    simp only [comesFirst,or_eq_true,decide_eq_true_eq]
    omega

theorem sorted_mergeSort (spans : List RedactionSpan) :
    (spans.mergeSort comesFirst).Pairwise fun a b => a.start ≤ b.start := by
  apply (pairwise_comesFirst spans).imp
  intro a b first
  simp only [comesFirst,or_eq_true,decide_eq_true_eq] at first
  omega

theorem mergeSort_eq_of_perm {others : List RedactionSpan} (all : ∀ span ∈ spans, IsSpan input preserve span)
    (order : others ~ spans) : others.mergeSort comesFirst = spans.mergeSort comesFirst := by
  have same := (mergeSort_perm others comesFirst).trans (order.trans (mergeSort_perm spans comesFirst).symm)
  apply same.eq_of_pairwise _ (pairwise_comesFirst others) (pairwise_comesFirst spans)
  intro a b mem inside first second
  simp only [comesFirst,or_eq_true,decide_eq_true_eq] at first second
  have start : a.start = b.start := by omega
  have stop : a.stop = b.stop := by omega
  have one := (all a (order.mem_iff.mp (mem_mergeSort.mp mem))).replaces
  have two := (all b (mem_mergeSort.mp inside)).replaces
  cases a
  cases b
  simp_all

theorem merged_merges (all : ∀ span ∈ spans, IsSpan input preserve span) :
    Merges input preserve spans (merged input preserve (spans.mergeSort comesFirst)) := by
  have same : ∀ span, span ∈ spans.mergeSort comesFirst ↔ span ∈ spans := fun _ => mem_mergeSort
  have sorted := sorted_mergeSort spans
  have known : ∀ span ∈ spans.mergeSort comesFirst, IsSpan input preserve span :=
    fun span mem => all span ((same span).mp mem)
  have res : Merges input preserve (spans.mergeSort comesFirst)
      (merged input preserve (spans.mergeSort comesFirst)) := by
    cases ordered : spans.mergeSort comesFirst with
    | nil => exact ⟨fun span mem => (by cases mem),fun _ _ => trivial,fun _ => Iff.rfl⟩
    | cons span rest =>
      rw [ordered] at sorted known
      obtain ⟨post,tail⟩ := pairwise_cons.mp sorted
      exact mergeSpans_merges (known span mem_cons_self)
        (fun other mem => known other (mem_cons_of_mem span mem)) post tail
  obtain ⟨made,apart,covers⟩ := res
  refine ⟨made,?_,?_⟩
  · intro i pre
    exact apart i fun span mem => pre span ((same span).mp mem)
  · intro place
    rw [covers]
    constructor
    · intro ⟨span,mem,here⟩
      exact ⟨span,(same span).mp mem,here⟩
    · intro ⟨span,mem,here⟩
      exact ⟨span,(same span).mpr mem,here⟩

end Merging

section Splicing

variable {input : Units} {preserve : Bool} {spans : List RedactionSpan} {start stop : Nat}

def editOf (input : Units) (span : RedactionSpan) : Edit CodeUnit :=
  ⟨span.start,slice input span.start span.stop,span.replacement⟩

theorem length_slice (mem : stop ≤ input.length) :
    (slice input start stop).length = stop - start := by
  rw [slice,length_take,length_drop]
  omega

theorem slice_append_drop (ordered : start ≤ stop) :
    slice input start stop ++ input.drop stop = input.drop start := by
  have split := take_append_drop (stop - start) (input.drop start)
  rw [drop_drop] at split
  have same : start + (stop - start) = stop := by omega
  rw [same] at split
  exact split

theorem spliced_joinChunks (all : ∀ span ∈ spans, IsSpan input preserve span)
    (apart : Apart start spans) :
    ∃ tail, Spliced start (input.drop start) (spans.map (editOf input)) (joinChunks input start spans) tail := by
  induction spans generalizing start with
  | nil => exact ⟨_,Spliced.done _⟩
  | cons span rest ih =>
    obtain ⟨pre,post⟩ := apart
    obtain ⟨some_units,inside,_⟩ := all span mem_cons_self
    obtain ⟨tail,spliced⟩ := ih (fun other mem => all other (mem_cons_of_mem span mem)) post
    have whole : input.drop start =
        slice input start span.start ++ (editOf input span).old ++ input.drop span.stop := by
      rw [editOf,append_assoc,slice_append_drop some_units.le,slice_append_drop pre]
    have gap : start + (slice input start span.start).length = (editOf input span).start := by
      rw [length_slice (by omega)]
      exact Nat.add_sub_cancel' pre
    have ends : (editOf input span).start + (editOf input span).old.length = span.stop := by
      rw [editOf,length_slice inside]
      exact Nat.add_sub_cancel' some_units.le
    rw [whole,joinChunks,map_cons]
    refine ⟨tail,Spliced.edit _ _ gap ?_⟩
    rw [ends]
    exact spliced

end Splicing

section Found

variable {input : Units} {secrets : List Units} {preserve : Bool}

theorem mem_literalSecretSpans {span : RedactionSpan} :
    span ∈ literalSecretSpans input secrets preserve ↔ ∃ secret ∈ secrets, ∃ i ∈
      occurrences secret input, span = ⟨i,i + secret.length,
        redactedSourceSpan (slice input i (i + secret.length)) redacted preserve⟩ := by
  have hit (secret : Units) : matchAll (escapeRegExp secret) input = occurrences secret input := by
    rw [matchAll,literalOf_escapeRegExp]
  rw [literalSecretSpans,mem_flatMap]
  constructor
  · intro ⟨secret,mem,inside⟩
    obtain ⟨i,place,same⟩ := mem_map.mp inside
    rw [hit] at place
    exact ⟨secret,(mem_filter.mp mem).1,i,place,same.symm⟩
  · intro ⟨secret,mem,i,place,same⟩
    have some_units := length_pos_iff.mpr (occurs_of_mem place).1
    refine ⟨secret,mem_filter.mpr ⟨mem,decide_eq_true some_units⟩,?_⟩
    rw [hit]
    exact mem_map.mpr ⟨i,place,same.symm⟩

theorem isSpan_of_mem {span : RedactionSpan} (mem : span ∈ literalSecretSpans input secrets preserve) :
    IsSpan input preserve span := by
  obtain ⟨secret,_,i,place,rfl⟩ := mem_literalSecretSpans.mp mem
  obtain ⟨some_units,_,inside⟩ := occurs_of_mem place
  have positive := length_pos_iff.mpr some_units
  exact ⟨by change i < i + secret.length; omega,inside,rfl⟩

theorem redactLiteralSpans_spliced (input : Units) (secrets : List Units) (preserve : Bool) :
    ∃ edits tail, Spliced 0 input edits (redactLiteralSpans input secrets preserve) tail ∧
      (∀ edit ∈ edits, edit.new = redactedSourceSpan edit.old redacted preserve) ∧
      ∀ place, (∃ edit ∈ edits, edit.start ≤ place ∧ place < edit.stop) ↔
        Covers (literalSecretSpans input secrets preserve) place := by
  obtain ⟨made,apart,covers⟩ := merged_merges fun span => @isSpan_of_mem input secrets preserve span
  obtain ⟨tail,spliced⟩ := spliced_joinChunks made (apart 0 fun _ _ => Nat.zero_le _)
  refine ⟨_,tail,spliced,?_,?_⟩
  · intro edit mem
    obtain ⟨span,inside,rfl⟩ := mem_map.mp mem
    exact (made span inside).replaces
  · intro place
    rw [← covers]
    have stop {span : RedactionSpan} (hit : IsSpan input preserve span) : (editOf input span).stop = span.stop := by
      rw [Edit.stop,editOf,length_slice hit.inside]
      exact Nat.add_sub_cancel' hit.some_units.le
    constructor
    · rintro ⟨edit,mem,low,high⟩
      obtain ⟨span,inside,rfl⟩ := mem_map.mp mem
      rw [stop (made span inside)] at high
      exact ⟨span,inside,low,high⟩
    · rintro ⟨span,inside,low,high⟩
      refine ⟨_,mem_map.mpr ⟨span,inside,rfl⟩,low,?_⟩
      rw [stop (made span inside)]
      exact high

theorem not_infix_redactSecretLiterals {secret : Units} (mem : secret ∈ secrets)
    (some_units : secret ≠ []) (apart : ∀ c ∈ secret, c ∉ redacted) :
    ¬ secret <:+: redactSecretLiterals input secrets := by
  intro within
  obtain ⟨edits,tail,spliced,wrote,covers⟩ := redactLiteralSpans_spliced input secrets false
  have placeholders : ∀ edit ∈ edits, edit.new ≠ [] ∧ ∀ c ∈ edit.new, c ∉ secret := by
    intro edit here
    have new : edit.new = redacted := wrote edit here
    rw [new]
    exact ⟨cons_ne_nil _ _,fun c inside other => apart c other inside⟩
  obtain ⟨place,stands,inside,outside⟩ := occurs_outside spliced placeholders within
  obtain ⟨other,hit,pre,behind⟩ := exists_overlap some_units stands inside
  -- The place where the two overlap is covered, so some edit touches it.
  have covered : Covers (literalSecretSpans input secrets false) (max place other) :=
    ⟨_,mem_literalSecretSpans.mpr ⟨secret,mem,other,hit,rfl⟩,Nat.le_max_right _ _,by
      change max place other < other + secret.length
      omega⟩
  obtain ⟨edit,here,low,high⟩ := (covers _).mpr covered
  have touched := outside edit here
  omega

theorem count_lineBreaks (span : Units) : (lineBreaks span).count (unit '\n') = span.count (unit '\n') := by
  induction span with
  | nil => rfl
  | cons c rest ih =>
    rw [lineBreaks]
    split
    · rw [count_cons,count_cons,ih]
    · split
      · rw [count_cons,count_cons,ih]
      next other =>
        rw [ih,count_cons_of_ne]
        exact other

theorem count_redactLiteralSpans (input : Units) (secrets : List Units) :
    (redactLiteralSpans input secrets true).count (unit '\n') = input.count (unit '\n') := by
  obtain ⟨edits,tail,spliced,wrote,_⟩ := redactLiteralSpans_spliced input secrets true
  apply count_spliced (unit '\n') spliced
  intro edit mem
  have none_there : redacted.count (unit '\n') = 0 := by decide
  rw [wrote edit mem,redactedSourceSpan,if_pos rfl,count_append,none_there,Nat.zero_add,count_lineBreaks]

theorem redactLiteralSpans_clean (clean : ∀ secret ∈ secrets, secret ≠ [] → ¬ secret <:+: input) :
    redactLiteralSpans input secrets preserve = input := by
  have nothing : literalSecretSpans input secrets preserve = [] := by
    rw [eq_nil_iff_forall_not_mem]
    intro span mem
    obtain ⟨secret,known,i,place,_⟩ := mem_literalSecretSpans.mp mem
    obtain ⟨some_units,stands,_⟩ := occurs_of_mem place
    exact clean secret known some_units (stands.isInfix.trans (drop_suffix i input).isInfix)
  rw [redactLiteralSpans,nothing,replaceCodeSpans,mergeSort_nil]
  exact drop_zero

theorem redactLiteralSpans_perm {others : List Units} (order : others ~ secrets) :
    redactLiteralSpans input others preserve = redactLiteralSpans input secrets preserve := by
  have found : literalSecretSpans input others preserve ~ literalSecretSpans input secrets preserve :=
    (order.filter _).flatMap_right _
  rw [redactLiteralSpans,redactLiteralSpans,replaceCodeSpans,replaceCodeSpans,
    mergeSort_eq_of_perm (fun _ mem => isSpan_of_mem mem) found]

end Found

/-- No secret that is not empty is left, the text outside of the occurrences that were found stays
as it is, and line breaks that are preserved are as many as before. -/
theorem redactSecretLiterals_removes (input : Units) (secrets : List Units)
    (apart : ∀ secret ∈ secrets, ∀ c ∈ secret, c ∉ redacted) :
    (∀ secret ∈ secrets, secret ≠ [] → ¬ secret <:+: redactSecretLiterals input secrets) ∧
    (∀ preserve, ∃ edits tail,
      Spliced 0 input edits (redactLiteralSpans input secrets preserve) tail ∧
      (∀ edit ∈ edits, edit.new = redactedSourceSpan edit.old redacted preserve) ∧
      ∀ place, (∃ edit ∈ edits, edit.start ≤ place ∧ place < edit.stop) ↔
        ∃ secret ∈ secrets, ∃ index ∈ occurrences secret input,
          index ≤ place ∧ place < index + secret.length) ∧
    (redactLiteralSpans input secrets true).count (unit '\n') = input.count (unit '\n') := by
  refine ⟨?_,?_,count_redactLiteralSpans input secrets⟩
  · intro secret member some_units
    exact not_infix_redactSecretLiterals member some_units (apart secret member)
  · intro preserve
    obtain ⟨edits,tail,spliced,wrote,covers⟩ := redactLiteralSpans_spliced input secrets preserve
    refine ⟨edits,tail,spliced,wrote,?_⟩
    intro place
    rw [covers]
    constructor
    · intro ⟨span,member,low,high⟩
      obtain ⟨secret,present,index,found,rfl⟩ := mem_literalSecretSpans.mp member
      exact ⟨secret,present,index,found,low,high⟩
    · intro ⟨secret,present,index,found,low,high⟩
      exact ⟨_,mem_literalSecretSpans.mpr ⟨secret,present,index,found,rfl⟩,low,high⟩

/-- A secret that overlaps itself. -/
theorem redactSecretLiterals_removes_sample :
    ¬ units "aba" <:+: redactSecretLiterals (units "xababa") [units "aba"] :=
  (redactSecretLiterals_removes (units "xababa") [units "aba"] fun _ member _ inside =>
    of_all_units (· ∉ redacted) (by decide) (mem_singleton.mp member ▸ inside)).1
      (units "aba") mem_cons_self (cons_ne_nil _ _)

/-- The empty secret is skipped, and every text holds it. -/
theorem redactSecretLiterals_skips_empty : ∃ secrets : List Units,
    (∀ secret ∈ secrets, ∀ c ∈ secret, c ∉ redacted) ∧
      ∃ secret ∈ secrets, secret <:+: redactSecretLiterals (units "a") secrets :=
  ⟨[[]],by simp,[],by simp,List.nil_infix⟩

/-- A text without secrets stays as it is, the secrets may come in any order, and a second pass finds
nothing to replace. -/
theorem redactSecretLiterals_settles (input : Units) (secrets : List Units) :
    (∀ preserve, (∀ secret ∈ secrets, secret ≠ [] → ¬ secret <:+: input) →
      redactLiteralSpans input secrets preserve = input) ∧
    (∀ preserve others, others ~ secrets →
      redactLiteralSpans input others preserve = redactLiteralSpans input secrets preserve) ∧
    ((∀ secret ∈ secrets, ∀ c ∈ secret, c ∉ redacted) →
      redactSecretLiterals (redactSecretLiterals input secrets) secrets = redactSecretLiterals input secrets) := by
  refine ⟨fun _ => redactLiteralSpans_clean,fun _ _ => redactLiteralSpans_perm,?_⟩
  intro apart
  apply redactLiteralSpans_clean
  intro secret mem some_units
  exact not_infix_redactSecretLiterals mem some_units (apart secret mem)

end Keiko.SecretRedaction
