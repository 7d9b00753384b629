import Keiko.DuplicateComponents
import Keiko.Library.Except
import Keiko.Library.Search

/-! The summary that consolidation proposes for a cluster of many members: the text of a generator
where it preserves all source bodies, and a list of the bodies otherwise. White space without case
divides a normalised text, so that the list preserves them too. -/
namespace Keiko.ConsolidationSummary
open Keiko.Library Keiko.MemorySimilarity Keiko.DuplicateClusters List Comparator

structure SummaryInput where
  winner : MemoryRecord
  records : List MemoryRecord
  sourceMemoryIds : List Units
  sourceBodies : List Units

/-- A `reviewerNote` that a generator returns. Of a value that is no string, what counts is its
`length` and the text that `join` makes of it. -/
inductive NoteValue where
  | undefined
  | null
  | string (text : Units)
  | other (length : Number) (text : Units)

/-- What calling a generator comes to. A value that is no text has a `body`, which is a text or
not. -/
inductive GeneratorOutcome where
  | threw
  | nothing
  | text (body : Units)
  | value (body : Option Units) (reviewerNote : NoteValue)

inductive SummaryFallbackReason where
  | absent
  | invalidOutput
  | unionNotPreserved
  | generatorThrew
  deriving DecidableEq

structure GeneratedSummaryChoice where
  body : Units
  reviewerNote : NoteValue
  fallbackUsed : Bool
  summaryFallbackReason : Option SummaryFallbackReason

structure MemoryUpdate where
  memoryId : Units
  reviewerId : Units
  updatedAt : Number
  bodyPatch : Units
  reviewerNote : Units

structure SummaryOptions where
  nowMs : Number
  reviewerId : Units
  summaryGenerator : Option (SummaryInput → GeneratorOutcome)

structure SummaryUpdate where
  update : Option MemoryUpdate
  fallbackUsed : Bool
  skipped : Bool

section Summary
variable (tables : Tables)

def uniqueTrimmedBodies (records : List MemoryRecord) : List Units :=
  Distinct.collect (fun trimmed => !trimmed.isEmpty) [] (records.map fun record => Units.trim record.body)

def deterministicUnionBody (records : List MemoryRecord) : Units :=
  match uniqueTrimmedBodies records with
  | [] => []
  | [body] => body
  | bodies => Units.join [unit '\n'] (bodies.map fun body => units "- " ++ body)

def summaryPreservesUnion (summary : Units) (sourceBodies : List Units) : Bool :=
  sourceBodies.all fun body =>
    (normalizeBody tables body).isEmpty ||
      Search.includes (normalizeBody tables body) (normalizeBody tables summary)

def fallback (unionBody : Units) (reason : SummaryFallbackReason) : GeneratedSummaryChoice :=
  ⟨unionBody,.undefined,true,some reason⟩

def chooseGenerated (sourceBodies : List Units) (unionBody body : Units) (reviewerNote : NoteValue) :
    GeneratedSummaryChoice :=
  if (Units.trim body).isEmpty then fallback unionBody .invalidOutput
  else if !summaryPreservesUnion tables body sourceBodies then fallback unionBody .unionNotPreserved
  else ⟨Units.trim body,reviewerNote,false,none⟩

def chooseSummaryBody (generator : Option (SummaryInput → GeneratorOutcome)) (input : SummaryInput)
    (sourceBodies : List Units) (unionBody : Units) : GeneratedSummaryChoice :=
  match generator with
  | none => fallback unionBody .absent
  | some generator =>
    match generator input with
    | .threw => fallback unionBody .generatorThrew
    | .nothing => fallback unionBody .invalidOutput
    | .text body => chooseGenerated tables sourceBodies unionBody body .undefined
    -- A body that cannot be trimmed throws inside of the `try`.
    | .value none _ => fallback unionBody .generatorThrew
    | .value (some body) reviewerNote =>
      chooseGenerated tables sourceBodies unionBody body reviewerNote

def mergeActionForCluster (cluster : DuplicateCluster) : Option (MemoryRecord × List MemoryRecord) :=
  let sorted := Comparator.sort compareRecordsByAge cluster.members
  match sorted.getLast? with
  | none => none
  | some winner => if sorted.length < 2 then none else some (winner,sorted.dropLast)

def sourceIdsForCluster (cluster : DuplicateCluster) : List Units :=
  cluster.members.map MemoryRecord.id

/-- The generator's own part of a note, if there is one to add; of `null` no length can be read. -/
def generatorNote : NoteValue → Except Unit (List Units)
  | .undefined => .ok []
  | .null => .error ()
  | .string text => .ok (if text.isEmpty then [] else [text])
  | .other length text => .ok (if Number.Less 0 length then [text] else [])

def summaryReviewerNote (cluster : DuplicateCluster) (fallbackUsed : Bool)
    (reviewerNote : NoteValue) : Except Unit Units := do
  let proposed := units "Consolidation summary proposed from source memories: " ++
    Units.join (units ", ") (sourceIdsForCluster cluster) ++ units "."
  let fallen := units "Deterministic union fallback used to preserve all source bodies."
  let added ← generatorNote reviewerNote
  return Units.join (units " ") (proposed :: ((if fallbackUsed then [fallen] else []) ++ added))

def buildSummaryUpdate (options : SummaryOptions) (cluster : DuplicateCluster) : Except Unit SummaryUpdate :=
  match mergeActionForCluster cluster with
  | none => .ok ⟨none,false,true⟩
  | some (winner,_) =>
    let sorted := Comparator.sort compareRecordsByAge cluster.members
    let sourceBodies := uniqueTrimmedBodies sorted
    if sourceBodies = [] then .ok ⟨none,false,true⟩
    else do
      let summary := chooseSummaryBody tables options.summaryGenerator
        ⟨winner,sorted,sourceIdsForCluster cluster,sourceBodies⟩ sourceBodies
        (deterministicUnionBody sorted)
      let note ← summaryReviewerNote cluster summary.fallbackUsed summary.reviewerNote
      return ⟨some ⟨winner.id,options.reviewerId,options.nowMs,summary.body,note⟩,summary.fallbackUsed,false⟩

end Summary

section Spaces
variable {c : CodeUnit}

/-- White space of the language as the Unicode tables have it: without case, its own lower case, and
not skipped by the rule of the final sigma where it is a blank or a new line. -/
structure SpaceLaws (tables : Units.CaseTables) : Prop where
  uncased : ∀ c, CodeUnit.isSpace c = true → tables.isCased c.toNat = false
  lowercase : ∀ c, CodeUnit.isSpace c = true → tables.lowercase c.toNat = [c.toNat]
  blank : tables.isCaseIgnorable 32 = false
  newline : tables.isCaseIgnorable 10 = false

theorem toNat_of_isSpace (space : CodeUnit.isSpace c = true) :
    c.toNat < 0x21 ∨ 0x80 ≤ c.toNat ∧ c.toNat < 0x300 ∨ 0x1000 ≤ c.toNat ∧ c.toNat < 0xd800 ∨ 0xf000 ≤ c.toNat := by
  simp only [CodeUnit.isSpace,Bool.or_eq_true,contains_iff_mem,mem_cons,not_mem_nil,
    or_false,Bool.and_eq_true,decide_eq_true_eq,UInt16.le_iff_toNat_le] at space
  rcases space with listed | range
  · rcases listed with rfl | rfl | rfl | rfl | rfl | rfl | rfl | rfl | rfl | rfl | rfl | rfl | rfl | rfl <;>
      decide
  · have low : (8192 : CodeUnit).toNat = 8192 := rfl
    have high : (8202 : CodeUnit).toNat = 8202 := rfl
    omega

theorem isHigh_of_isSpace (space : CodeUnit.isSpace c = true) : Units.isHigh c = false := by
  have range := toNat_of_isSpace space
  simp only [Units.isHigh,Bool.and_eq_false_iff,decide_eq_false_iff_not]
  omega

theorem isLow_of_isSpace (space : CodeUnit.isSpace c = true) : Units.isLow c = false := by
  have range := toNat_of_isSpace space
  simp only [Units.isLow,Bool.and_eq_false_iff,decide_eq_false_iff_not]
  omega

theorem SpaceLaws.caseless {tables : Units.CaseTables} (laws : SpaceLaws tables)
    (space : CodeUnit.isSpace c = true) : tables.Caseless c.toNat := by
  have range := toNat_of_isSpace space
  exact ⟨laws.uncased c space,laws.lowercase c space,by omega⟩

theorem isSpacePoint_toNat (space : CodeUnit.isSpace c = true) : Units.isSpacePoint c.toNat = true := by
  rw [Units.isSpacePoint,UInt16.ofNat_toNat,space,Bool.and_true,decide_eq_true_eq]
  exact c.toNat_lt

theorem codePoints_space (space : CodeUnit.isSpace c = true) (t rest : Units) :
    Units.codePoints (t ++ c :: rest) = Units.codePoints t ++ c.toNat :: Units.codePoints rest := by
  have plain : ∀ d ∈ (c :: rest).head?, Units.isLow d = false := by
    intro d first
    obtain rfl := Option.some.inj first
    exact isLow_of_isSpace space
  rw [Units.codePoints_append t plain,Units.codePoints_plain (isHigh_of_isSpace space)]

theorem stripped_space (tables : Tables) (space : CodeUnit.isSpace c = true) (t rest : Units) :
    stripped tables (t ++ c :: rest) = stripped tables t ++ c :: stripped tables rest := by
  have kept : isKept tables c.toNat = true := by
    rw [isKept,isSpacePoint_toNat space,Bool.or_true]
  unfold stripped
  rw [codePoints_space space,filter_append,filter_cons_of_pos kept,flatMap_append,flatMap_cons,Units.ofCodePoint_toNat]
  rfl

end Spaces

section Words
variable {tables : Tables} {c : CodeUnit}

def normalWords (tables : Tables) (text : Units) : List Units :=
  Units.words (stripped tables (tables.toLowerCase text))

theorem normalizeBody_eq (tables : Tables) (t : Units) :
    normalizeBody tables t = Units.spaced (normalWords tables t) :=
  Units.trim_collapse _

theorem toLowerCase_points (tables : Tables) {t : Units} (points : List ℕ) {points' : List ℕ}
    (lowered : tables.lowerFrom [] (Units.codePoints t) = points ++ c.toNat :: points') :
    tables.toLowerCase t = points.flatMap Units.ofCodePoint ++ c :: points'.flatMap Units.ofCodePoint := by
  rw [Units.CaseTables.toLowerCase,lowered,flatMap_append,flatMap_cons,Units.ofCodePoint_toNat]
  rfl

theorem normalWords_divide (laws : SpaceLaws tables.toCaseTables) (space : CodeUnit.isSpace c = true)
    (heeded : tables.isCaseIgnorable c.toNat = false) (t rest : Units) :
    normalWords tables (t ++ c :: rest) = normalWords tables t ++ normalWords tables rest := by
  have lowered := (laws.caseless space).lowerFrom_divide heeded (Units.codePoints t) (Units.codePoints rest)
  rw [← codePoints_space space] at lowered
  unfold normalWords
  rw [toLowerCase_points tables _ lowered,stripped_space tables space,Units.words_append space]
  rfl

theorem normalWords_cons (laws : SpaceLaws tables.toCaseTables) (space : CodeUnit.isSpace c = true)
    (t : Units) : normalWords tables (c :: t) = normalWords tables t := by
  have lowered := (laws.caseless space).lowerFrom_cons (Units.codePoints t)
  rw [← Units.codePoints_plain (isHigh_of_isSpace space)] at lowered
  unfold normalWords
  rw [toLowerCase_points tables [] lowered,stripped_space tables space,Units.words_append space]
  rfl

theorem normalWords_concat (laws : SpaceLaws tables.toCaseTables) (space : CodeUnit.isSpace c = true) (t : Units) :
    normalWords tables (t ++ [c]) = normalWords tables t := by
  have lowered := (laws.caseless space).lowerFrom_concat (Units.codePoints t)
  have ends : Units.codePoints t ++ [c.toNat] = Units.codePoints (t ++ [c]) :=
    (codePoints_space space t []).symm
  rw [ends] at lowered
  unfold normalWords
  rw [toLowerCase_points tables _ lowered,stripped_space tables space,Units.words_append space]
  exact append_nil _

theorem normalWords_trimStart (laws : SpaceLaws tables.toCaseTables) (t : Units) :
    normalWords tables (Units.trimStart t) = normalWords tables t := by
  induction t with
  | nil => rfl
  | cons c t ih =>
    by_cases space : CodeUnit.isSpace c = true
    · rw [normalWords_cons laws space,← ih,Units.trimStart,dropWhile_cons_of_pos space]
      rfl
    · rw [Units.trimStart,dropWhile_cons_of_neg space]

theorem normalWords_trimEnd (laws : SpaceLaws tables.toCaseTables) (t : Units) :
    normalWords tables (Units.trimEnd t) = normalWords tables t := by
  induction t using reverseRecOn with
  | nil => rfl
  | append_singleton t c ih =>
    rw [Units.trimEnd,reverse_append,reverse_singleton,singleton_append]
    by_cases space : CodeUnit.isSpace c = true
    · rw [normalWords_concat laws space,dropWhile_cons_of_pos space]
      exact ih
    · rw [dropWhile_cons_of_neg space,reverse_cons,reverse_reverse]

theorem normalizeBody_trim (laws : SpaceLaws tables.toCaseTables) (t : Units) :
    normalizeBody tables (Units.trim t) = normalizeBody tables t := by
  rw [normalizeBody_eq,normalizeBody_eq,Units.trim,normalWords_trimEnd laws,normalWords_trimStart laws]

theorem normalWords_join (laws : SpaceLaws tables.toCaseTables) (texts : List Units) :
    normalWords tables (Units.join [unit '\n'] texts) = texts.flatMap (normalWords tables) := by
  induction texts with
  | nil => rfl
  | cons t texts ih =>
    cases texts with
    | nil => simp [Units.join]
    | cons next texts =>
      rw [flatMap_cons,← ih,← normalWords_divide (c := unit '\n') laws (by decide) laws.newline]
      simp [Units.join]

theorem normalWords_item (laws : SpaceLaws tables.toCaseTables) (body : Units) :
    normalWords tables (units "- " ++ body) =
      normalWords tables [unit '-'] ++ normalWords tables body :=
  normalWords_divide (c := unit ' ') laws (by decide) laws.blank [unit '-'] body

end Words

section Union
variable {tabs : Tables} {records : List MemoryRecord} {body : Units}

theorem mem_uniqueTrimmedBodies : body ∈ uniqueTrimmedBodies records ↔
    body ≠ [] ∧ ∃ r ∈ records, Units.trim r.body = body := by
  simp [uniqueTrimmedBodies]

theorem deterministicUnionBody_ne_nil (full : uniqueTrimmedBodies records ≠ []) :
    deterministicUnionBody records ≠ [] := by
  unfold deterministicUnionBody
  split
  next empty => exact absurd empty full
  next body single =>
    have mem : body ∈ uniqueTrimmedBodies records := by
      rw [single]
      exact mem_singleton_self body
    exact ((mem_uniqueTrimmedBodies).mp mem).1
  next bodies none_empty _ =>
    cases list : uniqueTrimmedBodies records with
    | nil => exact absurd list none_empty
    | cons body bodies =>
      rw [map_cons,Units.join]
      cases bodies with
      | nil => simp [units]
      | cons next bodies => simp [units,intercalate_cons_cons]

theorem infix_deterministicUnionBody (laws : SpaceLaws tabs.toCaseTables) (mem : body ∈ uniqueTrimmedBodies records) :
    normalizeBody tabs body <:+: normalizeBody tabs (deterministicUnionBody records) := by
  unfold deterministicUnionBody
  split
  next empty =>
    rw [empty] at mem
    cases mem
  next single_body single =>
    rw [single,mem_singleton] at mem
    rw [mem]
  next =>
    rw [normalizeBody_eq,normalizeBody_eq,normalWords_join laws,flatMap_map]
    apply Units.spaced_infix
    obtain ⟨front,back,same⟩ := append_of_mem mem
    rw [same,flatMap_append,flatMap_cons,normalWords_item laws]
    exact ⟨front.flatMap (fun body => normalWords tabs (units "- " ++ body)) ++
        normalWords tabs [unit '-'],
      back.flatMap fun body => normalWords tabs (units "- " ++ body),by simp⟩

theorem summaryPreservesUnion_iff {summary : Units} {sourceBodies : List Units} :
    summaryPreservesUnion tabs summary sourceBodies = true ↔
      ∀ body ∈ sourceBodies, normalizeBody tabs body <:+: normalizeBody tabs summary := by
  rw [summaryPreservesUnion,all_eq_true]
  apply forall₂_congr
  intro body _
  rw [Bool.or_eq_true,List.isEmpty_iff,Search.includes_iff_infix]
  constructor
  · intro either
    rcases either with empty | mem
    · rw [empty]
      exact List.nil_infix
    · exact mem
  · exact .inr

end Union

section Choice
variable {tables : Tables} {generator : Option (SummaryInput → GeneratorOutcome)}
variable {input : SummaryInput} {sourceBodies : List Units} {unionBody : Units}

def generatorText (generator : Option (SummaryInput → GeneratorOutcome)) (input : SummaryInput) : Option Units :=
  match generator with
  | none => none
  | some generator =>
    match generator input with
    | .text body => some body
    | .value body _ => body
    | _ => none

/-- A choice that preserves all bodies, and falls back just when it is not the generator's text. -/
structure Sound (tables : Tables) (text : Option Units) (sourceBodies : List Units)
    (choice : GeneratedSummaryChoice) : Prop where
  preserves : ∀ body ∈ sourceBodies, normalizeBody tables body <:+: normalizeBody tables choice.body
  marked : choice.fallbackUsed = true ↔ ¬∃ body, text = some body ∧ choice.body = Units.trim body

theorem sound_fallback (preserved : summaryPreservesUnion tables unionBody sourceBodies = true)
    (reason : SummaryFallbackReason) {t : Option Units}
    (other : ∀ body, t = some body → unionBody ≠ Units.trim body) :
    Sound tables t sourceBodies (fallback unionBody reason) := by
  constructor
  · exact (summaryPreservesUnion_iff).mp preserved
  · apply iff_of_true rfl
    intro used
    obtain ⟨body,given,same⟩ := used
    exact other body given same

theorem sound_chooseGenerated (laws : SpaceLaws tables.toCaseTables) (full : unionBody ≠ [])
    (preserved : summaryPreservesUnion tables unionBody sourceBodies = true) (body : Units)
    (reviewerNote : NoteValue) :
    Sound tables (some body) sourceBodies (chooseGenerated tables sourceBodies unionBody body reviewerNote) := by
  unfold chooseGenerated
  split
  next blank =>
    apply sound_fallback preserved
    intro other given same
    obtain rfl := Option.some.inj given
    exact full (same.trans (isEmpty_iff.mp blank))
  split
  next lost =>
    -- A text that is the union would have preserved the bodies.
    apply sound_fallback preserved
    intro other given same
    obtain rfl := Option.some.inj given
    rw [Bool.not_eq_true',← Bool.not_eq_true,summaryPreservesUnion_iff] at lost
    apply lost
    rw [same,summaryPreservesUnion_iff] at preserved
    intro src mem
    have inside := preserved src mem
    rwa [normalizeBody_trim laws] at inside
  next kept =>
    rw [Bool.not_eq_true',Bool.not_eq_false,summaryPreservesUnion_iff] at kept
    constructor
    · intro src mem
      rw [normalizeBody_trim laws]
      exact kept src mem
    · apply iff_of_false Bool.false_ne_true
      intro unused
      exact unused ⟨body,rfl,rfl⟩

theorem sound_chooseSummaryBody (laws : SpaceLaws tables.toCaseTables) (full : unionBody ≠ [])
    (preserved : summaryPreservesUnion tables unionBody sourceBodies = true) :
    Sound tables (generatorText generator input) sourceBodies
      (chooseSummaryBody tables generator input sourceBodies unionBody) := by
  have silent : ∀ reason, Sound tables none sourceBodies (fallback unionBody reason) :=
    fun reason => sound_fallback preserved reason fun _ given => by cases given
  unfold chooseSummaryBody generatorText
  cases generator with
  | none => exact silent _
  | some generator =>
    dsimp only
    cases generator input with
    | threw => exact silent _
    | nothing => exact silent _
    | text body => exact sound_chooseGenerated laws full preserved body _
    | value body reviewerNote =>
      cases body with
      | none => exact silent _
      | some body => exact sound_chooseGenerated laws full preserved body _

end Choice

section Update
variable {tables : Tables} {options : SummaryOptions} {cluster : DuplicateCluster}

def summaryInput (cluster : DuplicateCluster) (winner : MemoryRecord) : SummaryInput :=
  ⟨winner,Comparator.sort compareRecordsByAge cluster.members,sourceIdsForCluster cluster,
    uniqueTrimmedBodies (Comparator.sort compareRecordsByAge cluster.members)⟩

theorem mergeActionForCluster_eq (several : 2 ≤ cluster.members.length) :
    ∃ winner losers, mergeActionForCluster cluster = some (winner,losers) ∧ winner ∈ cluster.members := by
  have size : (sort compareRecordsByAge cluster.members).length = cluster.members.length :=
    length_sort
  unfold mergeActionForCluster
  cases last : (sort compareRecordsByAge cluster.members).getLast? with
  | none =>
    rw [getLast?_eq_none_iff] at last
    rw [last,length_nil] at size
    omega
  | some winner =>
    simp only [last,if_neg (show ¬(sort compareRecordsByAge cluster.members).length < 2 by omega)]
    exact ⟨winner,_,rfl,mem_sort.mp (mem_of_getLast? last)⟩

def clusterText (options : SummaryOptions) (cluster : DuplicateCluster) : Option Units :=
  (mergeActionForCluster cluster).bind fun action =>
    generatorText options.summaryGenerator (summaryInput cluster action.1)

def clusterChoice (tables : Tables) (options : SummaryOptions) (cluster : DuplicateCluster)
    (winner : MemoryRecord) : GeneratedSummaryChoice :=
  chooseSummaryBody tables options.summaryGenerator (summaryInput cluster winner)
    (uniqueTrimmedBodies (Comparator.sort compareRecordsByAge cluster.members))
    (deterministicUnionBody (Comparator.sort compareRecordsByAge cluster.members))

variable (tables options cluster) in
theorem buildSummaryUpdate_eq (several : 2 ≤ cluster.members.length) : ∃ winner ∈ cluster.members,
      clusterText options cluster = generatorText options.summaryGenerator (summaryInput cluster winner) ∧
      buildSummaryUpdate tables options cluster =
        if uniqueTrimmedBodies (Comparator.sort compareRecordsByAge cluster.members) = [] then .ok ⟨none,false,true⟩
        else (summaryReviewerNote cluster (clusterChoice tables options cluster winner).fallbackUsed
            (clusterChoice tables options cluster winner).reviewerNote).map fun note =>
              ⟨some ⟨winner.id,options.reviewerId,options.nowMs,
                (clusterChoice tables options cluster winner).body,note⟩,
                (clusterChoice tables options cluster winner).fallbackUsed,false⟩ := by
  obtain ⟨winner,losers,action,mem⟩ := mergeActionForCluster_eq several
  refine ⟨winner,mem,by rw [clusterText,action,Option.bind_some],?_⟩
  unfold buildSummaryUpdate
  rw [action]
  dsimp only
  split
  · rfl
  · rw [clusterChoice,summaryInput]
    cases summaryReviewerNote cluster _ _ <;> rfl

theorem generatorNote_ok {note : NoteValue} (readable : note ≠ .null) : ∃ added, generatorNote note = .ok added := by
  cases note with
  | null => exact absurd rfl readable
  | undefined => exact ⟨_,rfl⟩
  | string t => exact ⟨_,rfl⟩
  | other length t => exact ⟨_,rfl⟩

theorem chooseGenerated_note {sourceBodies : List Units} {unionBody body : Units} {note : NoteValue}
    (readable : note ≠ .null) :
    (chooseGenerated tables sourceBodies unionBody body note).reviewerNote ≠ .null := by
  unfold chooseGenerated
  split
  · exact NoteValue.noConfusion
  split
  · exact NoteValue.noConfusion
  · exact readable

/-- The note of a choice is `null` only where the generator's is. -/
theorem chooseSummaryBody_note {input : SummaryInput} {sourceBodies : List Units} {unionBody : Units}
    (readable : ∀ generator ∈ options.summaryGenerator, ∀ body, generator input ≠ .value (some body) .null) :
    (chooseSummaryBody tables options.summaryGenerator input sourceBodies unionBody).reviewerNote ≠
      .null := by
  unfold chooseSummaryBody
  cases given : options.summaryGenerator with
  | none => exact NoteValue.noConfusion
  | some generator =>
    dsimp only
    cases outcome : generator input with
    | threw => exact NoteValue.noConfusion
    | nothing => exact NoteValue.noConfusion
    | text body => exact chooseGenerated_note NoteValue.noConfusion
    | value body note =>
      cases body with
      | none => exact NoteValue.noConfusion
      | some body =>
        apply chooseGenerated_note
        intro null
        exact readable generator given body (null ▸ outcome)

/-- The body that is proposed for a cluster contains every source body, up to normalisation, and is
marked as the union just when it is not the generator's text. Where some body is not blank, one is
proposed, unless the note of the generator is `null`. -/
theorem buildSummaryUpdate_preserves (laws : SpaceLaws tables.toCaseTables)
    (options : SummaryOptions) (cluster : DuplicateCluster) (many : 2 < cluster.members.length) :
    (∀ result update, buildSummaryUpdate tables options cluster = .ok result →
      result.update = some update →
        (∀ member ∈ cluster.members,
          normalizeBody tables member.body <:+: normalizeBody tables update.bodyPatch) ∧
        (result.fallbackUsed = true ↔
          ¬∃ text, clusterText options cluster = some text ∧ update.bodyPatch = Units.trim text)) ∧
    ((∃ member ∈ cluster.members, Units.trim member.body ≠ []) →
      (∀ generator ∈ options.summaryGenerator, ∀ input body,
        generator input ≠ .value (some body) .null) →
      ∃ result update, buildSummaryUpdate tables options cluster = .ok result ∧
        result.update = some update) := by
  obtain ⟨winner,_,text,built⟩ := buildSummaryUpdate_eq tables options cluster (by omega)
  rw [built,text]
  constructor
  · intro result update proposed given
    split at proposed
    next =>
      cases proposed
      cases given
    next full =>
      have preserved : summaryPreservesUnion tables
          (deterministicUnionBody (sort compareRecordsByAge cluster.members))
          (uniqueTrimmedBodies (sort compareRecordsByAge cluster.members)) = true :=
        (summaryPreservesUnion_iff).mpr fun _ member => infix_deterministicUnionBody laws member
      have sound : Sound tables
          (generatorText options.summaryGenerator (summaryInput cluster winner))
          (uniqueTrimmedBodies (sort compareRecordsByAge cluster.members))
          (clusterChoice tables options cluster winner) :=
        sound_chooseSummaryBody laws (deterministicUnionBody_ne_nil full) preserved
      obtain ⟨note,_,rfl⟩ := (Library.map_eq_ok).mp proposed
      obtain rfl := Option.some.inj given
      constructor
      · intro member inside
        rw [← normalizeBody_trim laws]
        by_cases blank : Units.trim member.body = []
        · rw [blank]
          exact List.nil_infix
        · exact sound.preserves _ ((mem_uniqueTrimmedBodies).mpr
            ⟨blank,member,mem_sort.mpr inside,rfl⟩)
      · exact sound.marked
  · intro filled readable
    obtain ⟨member,inside,full⟩ := filled
    have listed : Units.trim member.body ∈
        uniqueTrimmedBodies (sort compareRecordsByAge cluster.members) :=
      (mem_uniqueTrimmedBodies).mpr ⟨full,member,mem_sort.mpr inside,rfl⟩
    have note_readable : (clusterChoice tables options cluster winner).reviewerNote ≠ .null :=
      chooseSummaryBody_note fun generator given => readable generator given _
    obtain ⟨added,note⟩ := generatorNote_ok note_readable
    rw [if_neg (ne_nil_of_mem listed),summaryReviewerNote,note]
    exact ⟨_,_,rfl,rfl⟩

end Update

section Sample

theorem spaceLaws_ascii : SpaceLaws asciiTables.toCaseTables where
  uncased c space := by
    have range := toNat_of_isSpace space
    simp only [asciiTables,Bool.or_eq_false_iff,Bool.and_eq_false_iff,decide_eq_false_iff_not]
    omega
  lowercase c space := by
    have range := toNat_of_isSpace space
    simp only [asciiTables,Bool.and_eq_true,decide_eq_true_eq]
    rw [if_neg (by omega)]
  blank := by decide
  newline := by decide

def sampleCluster : DuplicateCluster :=
  ⟨units "m1",[
    ⟨units "m1",.global,.decision,units " Use tabs.",.accepted,10⟩,
    ⟨units "m2",.global,.decision,units "use tabs",.accepted,20⟩,
    ⟨units "m3",.global,.decision,units "use  TABS!",.accepted,30⟩],[]⟩

def sampleOptions : SummaryOptions :=
  ⟨0,units "r",some fun _ => .value (some (units "Tabs, use tabs. ")) .undefined⟩

theorem buildSummaryUpdate_preserves_sample :
    ∃ result update, buildSummaryUpdate asciiTables sampleOptions sampleCluster = .ok result ∧
      result.update = some update ∧
      (∀ member ∈ sampleCluster.members,
        normalizeBody asciiTables member.body <:+: normalizeBody asciiTables update.bodyPatch) ∧
      (result.fallbackUsed = true ↔ ¬∃ text, clusterText sampleOptions sampleCluster = some text ∧
        update.bodyPatch = Units.trim text) := by
  obtain ⟨preserves,proposes⟩ :=
    buildSummaryUpdate_preserves spaceLaws_ascii sampleOptions sampleCluster (by decide)
  have readable : ∀ generator ∈ sampleOptions.summaryGenerator, ∀ input body,
      generator input ≠ .value (some body) .null := by
    intro generator given input body same
    obtain rfl := Option.some.inj given
    cases same
  obtain ⟨result,update,built,given⟩ :=
    proposes ⟨_,mem_cons_self,by decide⟩ readable
  obtain ⟨contained,marked⟩ := preserves result update built given
  exact ⟨result,update,built,given,contained,marked⟩

end Sample

end Keiko.ConsolidationSummary
