import Keiko.JiraDraftKeyRanges
import Mathlib.Data.List.TakeWhile
import Mathlib.Algebra.BigOperators.Ring.Finset
import Mathlib.Data.Finset.Dedup
import Mathlib.Algebra.Order.BigOperators.Group.List

/-! What the packed key lists name. A range stands for its numbered keys and any other piece for
itself; the packed entries name every key once, and a result counts the keys it does not list. -/
namespace Keiko.JiraDraftKeyRanges
open List
open Library Comparators

def dot : CodeUnit := unit '.'

def readRange (piece : Units) : Option (Units × ℕ × ℕ) :=
  match piece.dropWhile fun c => c != dot with
  | first :: second :: stop =>
    match numbered (piece.takeWhile fun c => c != dot),numbered stop with
    | some a,some b =>
      if first = dot ∧ second = dot ∧ a.project = b.project ∧ a.number < b.number then
        some (a.project,a.number,b.number)
      else none
    | _,_ => none
  | _ => none

def expandPiece (piece : Units) : List Units :=
  match readRange piece with
  | some (project,start,stop) =>
    (List.range' start (stop - start + 1)).map (keyText project)
  | none => [piece]

def expand (text : Units) : List Units := (text.splitOn comma).flatMap expandPiece

def expandAll (entries : List PackedKeys) : List Units :=
  entries.flatMap fun entry => expand entry.text

section Keys
variable {project key : Units} {n start stop : ℕ} {c : CodeUnit}

def isKeyCharacter (c : CodeUnit) : Bool :=
  (unit 'A' ≤ c && c ≤ unit 'Z') || CodeUnit.isDigit c || c == unit '_'

theorem isKeyCharacter_ne (is_key : isKeyCharacter c = true) : c ≠ unit '-' ∧ c ≠ dot ∧ c ≠ comma := by
  refine ⟨?_,?_,?_⟩ <;>
  · intro same
    rw [same] at is_key
    exact absurd is_key (by decide)

theorem isKeyCharacter_project (is_project : isProject project = true)
    (mem : c ∈ project) : isKeyCharacter c = true := by
  cases project with
  | nil => cases mem
  | cons a rest =>
    rw [isProject,Bool.and_eq_true,Bool.and_eq_true] at is_project
    rcases mem_cons.mp mem with rfl | inside
    · rw [isKeyCharacter,is_project.1.1]
      rfl
    · exact all_eq_true.mp is_project.2 c inside

theorem isKeyCharacter_digit (is_digit : CodeUnit.isDigit c = true) : isKeyCharacter c = true := by
  rw [isKeyCharacter,is_digit,Bool.or_true]
  rfl

theorem mem_keyText (is_project : isProject project = true)
    (mem : c ∈ keyText project n) : c ≠ dot ∧ c ≠ comma := by
  rcases mem_append.mp mem with inside | inside
  · exact (isKeyCharacter_ne (isKeyCharacter_project is_project inside)).2
  · rcases mem_cons.mp inside with hyphen | inside
    · rw [hyphen]
      decide
    · exact (isKeyCharacter_ne (isKeyCharacter_digit (UnitDecimal.isDigit_of_mem_ofNat inside))).2

theorem isNumber_ofNat (positive : 1 ≤ n) (safe : n ≤ maxSafeInteger) :
    isNumber (UnitDecimal.ofNat n) = true := by
  have small : n < 10 ^ 18 := by
    rw [maxSafeInteger] at safe
    omega
  have short := UnitDecimal.length_ofNat_le positive small
  have ds := fun c => @UnitDecimal.isDigit_of_mem_ofNat c n
  obtain ⟨a,rest,split,leading⟩ := UnitDecimal.ofNat_eq_cons positive
  rw [split] at short ds ⊢
  have first_digit := UnitDecimal.isDigit_iff.mp (ds a mem_cons_self)
  rw [isNumber,Bool.and_eq_true,Bool.and_eq_true,Bool.and_eq_true]
  refine ⟨⟨⟨?_,?_⟩,?_⟩,?_⟩
  · rw [decide_eq_true_eq,UInt16.le_iff_toNat_le]
    rw [UnitDecimal.digitValue] at leading
    show 49 ≤ a.toNat
    omega
  · rw [decide_eq_true_eq,UInt16.le_iff_toNat_le]
    exact first_digit.2
  · rw [length_cons] at short
    exact decide_eq_true (by omega)
  · exact all_eq_true.mpr fun c mem => ds c (mem_cons_of_mem _ mem)

theorem ofNat_value_of_isNumber {ds : Units} (is_number : isNumber ds = true) :
    UnitDecimal.ofNat (UnitDecimal.value ds) = ds ∧ 1 ≤ UnitDecimal.value ds := by
  cases ds with
  | nil => cases is_number
  | cons a rest =>
    rw [isNumber,Bool.and_eq_true,Bool.and_eq_true,Bool.and_eq_true,decide_eq_true_eq,
      decide_eq_true_eq,UInt16.le_iff_toNat_le,UInt16.le_iff_toNat_le] at is_number
    obtain ⟨⟨⟨low,high⟩,_⟩,ds⟩ := is_number
    have low : 49 ≤ a.toNat := low
    have high : a.toNat ≤ 57 := high
    have all : ∀ c ∈ a :: rest, CodeUnit.isDigit c = true := by
      intro c mem
      rcases mem_cons.mp mem with rfl | inside
      · exact UnitDecimal.isDigit_iff.mpr ⟨by omega,high⟩
      · exact all_eq_true.mp ds c inside
    have leading : UnitDecimal.digitValue a ≠ 0 := by
      rw [UnitDecimal.digitValue]
      omega
    have numeral := UnitDecimal.ofNat_value all leading
    refine ⟨numeral,Nat.one_le_iff_ne_zero.mpr ?_⟩
    intro zero
    rw [zero] at numeral
    injection numeral with same
    rw [← same] at low
    exact absurd low (by decide)

theorem numbered_iff : numbered key = some ⟨project,n⟩ ↔ isProject project = true ∧
    1 ≤ n ∧ n ≤ maxSafeInteger ∧ key = keyText project n := by
  constructor
  · intro hit
    unfold numbered at hit
    have whole : key.takeWhile (fun c => c != unit '-') ++ key.dropWhile (fun c => c != unit '-') =
        key := takeWhile_append_dropWhile
    simp only at hit
    split at hit
    next => cases hit
    next hyphen ds behind =>
      split at hit
      next passed =>
        rw [Bool.and_eq_true,Bool.and_eq_true,decide_eq_true_eq] at passed
        obtain ⟨⟨is_project,is_number⟩,safe⟩ := passed
        obtain ⟨rfl,rfl⟩ := Numbered.mk.inj (Option.some.inj hit)
        obtain ⟨numeral,positive⟩ := ofNat_value_of_isNumber is_number
        have is_hyphen : hyphen = unit '-' := by
          have nonempty : key.dropWhile (fun c => c != unit '-') ≠ [] := behind ▸ cons_ne_nil _ _
          have stopped := head_dropWhile_not (fun c => c != unit '-') nonempty
          simpa [behind] using stopped
        subst is_hyphen
        refine ⟨is_project,positive,safe,?_⟩
        rw [keyText,numeral,← behind,whole]
      next => cases hit
  · intro spelled
    obtain ⟨is_project,positive,safe,rfl⟩ := spelled
    have pre : ∀ c ∈ project, (c != unit '-') = true := fun c mem =>
      bne_iff_ne.mpr (isKeyCharacter_ne (isKeyCharacter_project is_project mem)).1
    have front : (keyText project n).takeWhile (fun c => c != unit '-') = project := by
      rw [keyText,takeWhile_append_of_pos pre]
      simp
    have back : (keyText project n).dropWhile (fun c => c != unit '-') = unit '-' :: UnitDecimal.ofNat n := by
      rw [keyText,dropWhile_append_of_pos pre]
      simp
    unfold numbered
    rw [front,back]
    simp only [is_project,isNumber_ofNat positive safe,UnitDecimal.value_ofNat,safe,decide_true,Bool.and_self,if_true]

structure IsRange (project : Units) (start stop : ℕ) : Prop where
  project : isProject project = true
  positive : 1 ≤ start
  ordered : start ≤ stop
  safe : stop ≤ maxSafeInteger

theorem IsRange.numbered (range : IsRange project start stop) (mem : start ≤ n)
    (inside' : n ≤ stop) : numbered (keyText project n) = some ⟨project,n⟩ :=
  numbered_iff.mpr ⟨range.project,range.positive.trans mem,inside'.trans range.safe,rfl⟩

theorem readRange_none (without : dot ∉ key) : readRange key = none := by
  have nothing : key.dropWhile (fun c => c != dot) = [] := by
    rw [dropWhile_eq_nil_iff]
    intro c mem
    rw [bne_iff_ne]
    intro same
    exact without (same ▸ mem)
  rw [readRange,nothing]

theorem readRange_label (range : IsRange project start stop) (more : start < stop) :
    readRange (label project start stop) = some (project,start,stop) := by
  have pre : ∀ c ∈ keyText project start, (c != dot) = true := fun c mem =>
    bne_iff_ne.mpr (mem_keyText range.project mem).1
  have whole : label project start stop = keyText project start ++ dot :: dot :: keyText project stop := by
    rw [label,if_neg more.ne,append_assoc]
    rfl
  have front : (label project start stop).takeWhile (fun c => c != dot) = keyText project start := by
    rw [whole,takeWhile_append_of_pos pre]
    simp
  have back : (label project start stop).dropWhile (fun c => c != dot) = dot :: dot :: keyText project stop := by
    rw [whole,dropWhile_append_of_pos pre]
    simp
  rw [readRange,back,front]
  simp only [range.numbered le_rfl range.ordered,range.numbered range.ordered le_rfl,more,and_self,if_true]

theorem expandPiece_label (range : IsRange project start stop) : expandPiece (label project start stop) =
      (List.range' start (stop - start + 1)).map (keyText project) := by
  rcases range.ordered.eq_or_lt with single | more
  · subst single
    have without : dot ∉ keyText project start := fun mem =>
      (mem_keyText range.project mem).1 rfl
    rw [label,if_pos rfl,expandPiece,readRange_none without,Nat.sub_self]
    rfl
  · rw [expandPiece,readRange_label range more]

theorem comma_not_mem_label (range : IsRange project start stop) : comma ∉ label project start stop := by
  have without : ∀ n, comma ∉ keyText project n := fun n mem =>
    (mem_keyText range.project mem).2 rfl
  unfold label
  split
  · exact without start
  · simp only [mem_append,not_or]
    exact ⟨⟨without start,by decide⟩,without stop⟩

end Keys

section Runs
variable {numbers : List ℕ} {runs : List (ℕ × ℕ)} {number : ℕ}

def numbersOf (runs : List (ℕ × ℕ)) : List ℕ :=
  runs.flatMap fun run => List.range' run.1 (run.2 - run.1 + 1)

theorem numbersOf_addNumber (ordered : ∀ run ∈ runs, run.1 ≤ run.2) (number : ℕ) :
    numbersOf (addNumber runs number) = numbersOf runs ++ [number] ∧ ∀ run ∈ addNumber runs number, run.1 ≤ run.2 := by
  have started : numbersOf (runs ++ [(number,number)]) = numbersOf runs ++ [number] ∧
      ∀ run ∈ runs ++ [(number,number)], run.1 ≤ run.2 := by
    constructor
    · rw [numbersOf,flatMap_append,flatMap_singleton,Nat.sub_self]
      rfl
    · intro run mem
      rcases mem_append.mp mem with old | new
      · exact ordered run old
      · rw [mem_singleton.mp new]
  unfold addNumber
  split
  next last hit =>
    split
    next next_number =>
      have split := dropLast_append_getLast? last hit
      have last_ordered := ordered last (split ▸ mem_append_right _ (mem_singleton_self last))
      constructor
      · have longer : number - last.1 + 1 = last.2 - last.1 + 1 + 1 := by omega
        have end_number : last.1 + 1 * (last.2 - last.1 + 1) = number := by omega
        conv_rhs => rw [← split]
        rw [numbersOf,numbersOf,flatMap_append,flatMap_singleton,flatMap_append,
          flatMap_singleton,longer,range'_concat,end_number,append_assoc]
      · intro run mem
        rcases mem_append.mp mem with old | new
        · exact ordered run (mem_of_mem_dropLast old)
        · rw [mem_singleton.mp new]
          omega
    next => exact started
  next => exact started

theorem runsOf_spec (numbers : List ℕ) : numbersOf (runsOf numbers) = distinctNumbers numbers ∧
    ∀ run ∈ runsOf numbers, run.1 ≤ run.2 := by
  unfold runsOf
  induction distinctNumbers numbers using reverseRecOn with
  | nil => exact ⟨rfl,fun run absent => absurd absent not_mem_nil⟩
  | append_singleton numbers number ih =>
    rw [foldl_append,foldl_cons,foldl_nil]
    obtain ⟨added,ordered⟩ := numbersOf_addNumber ih.2 number
    rw [ih.1] at added
    exact ⟨added,ordered⟩

theorem mem_distinctNumbers : number ∈ distinctNumbers numbers ↔ number ∈ numbers := by
  rw [distinctNumbers,Comparator.mem_sort,Distinct.mem_collect]
  simp

theorem nodup_distinctNumbers (numbers : List ℕ) : (distinctNumbers numbers).Nodup :=
  (Comparator.perm_sort _ _).nodup_iff.mpr (Distinct.nodup_collect _ numbers nodup_nil)

def AreNumbers (numbers : List ℕ) : Prop := ∀ number ∈ numbers, 1 ≤ number ∧ number ≤ maxSafeInteger

theorem isRange_of_mem_runsOf {project : Units} (is_project : isProject project = true)
    (are_numbers : AreNumbers numbers) {run : ℕ × ℕ} (mem : run ∈ runsOf numbers) :
    IsRange project run.1 run.2 := by
  obtain ⟨flat,ordered⟩ := runsOf_spec numbers
  have run_ordered := ordered run mem
  have inside : ∀ number, run.1 ≤ number → number ≤ run.2 → number ∈ numbers := by
    intro number low high
    rw [← mem_distinctNumbers,← flat]
    refine mem_flatMap.mpr ⟨run,mem,?_⟩
    rw [mem_range'_1]
    omega
  exact ⟨is_project,(are_numbers run.1 (inside run.1 le_rfl run_ordered)).1,run_ordered,
    (are_numbers run.2 (inside run.2 run_ordered le_rfl)).2⟩

structure Exact (run : Run) : Prop where
  whole : comma ∉ run.label
  counted : run.keys = (expandPiece run.label).length

def namedBy (runs : List Run) : List Units := runs.flatMap fun run => expandPiece run.label

theorem projectRuns_spec {project : Units} (is_project : isProject project = true)
    (are_numbers : AreNumbers numbers) : (∀ run ∈ projectRuns project numbers, Exact run) ∧
      namedBy (projectRuns project numbers) = (distinctNumbers numbers).map (keyText project) := by
  constructor
  · intro run mem
    obtain ⟨ends,inside,rfl⟩ := mem_map.mp mem
    have range := isRange_of_mem_runsOf is_project are_numbers inside
    refine ⟨comma_not_mem_label range,?_⟩
    rw [expandPiece_label range,length_map,length_range']
  · rw [← (runsOf_spec numbers).1,numbersOf,map_flatMap,namedBy,projectRuns,flatMap_map]
    apply flatMap_congr
    intro ends inside
    exact expandPiece_label (isRange_of_mem_runsOf is_project are_numbers inside)

end Runs

section Lists
variable {keys : List Units} {key : Units} {e : Units × List ℕ}

def Spelled (keys : List Units) : Prop :=
  ∀ key ∈ keys, numbered key = none → comma ∉ key ∧ readRange key = none

def grouped (keys : List Units) : OrderedMap Units (List ℕ) :=
  Grouping.group Numbered.project Numbered.number (keys.filterMap numbered)

theorem mem_grouped (mem : e ∈ (grouped keys).entries) :
    isProject e.1 = true ∧ AreNumbers e.2 ∧ ∀ number, number ∈ e.2 ↔ keyText e.1 number ∈ keys ∧
        numbered (keyText e.1 number) = some ⟨e.1,number⟩ := by
  obtain ⟨same,some_number⟩ := Grouping.mem_group.mp mem
  have numbers : ∀ number, number ∈ e.2 ↔ ∃ key ∈ keys, numbered key = some ⟨e.1,number⟩ := by
    intro number
    rw [same,Grouping.mem_bucket]
    constructor
    · intro held
      obtain ⟨⟨project,_⟩,inside,rfl,rfl⟩ := held
      obtain ⟨key,in_keys,hit⟩ := mem_filterMap.mp inside
      exact ⟨key,in_keys,hit⟩
    · intro held
      obtain ⟨key,in_keys,hit⟩ := held
      exact ⟨_,mem_filterMap.mpr ⟨key,in_keys,hit⟩,rfl,rfl⟩
  refine ⟨?_,?_,?_⟩
  · obtain ⟨number,inside⟩ := exists_mem_of_ne_nil _ some_number
    obtain ⟨key,_,hit⟩ := (numbers number).mp inside
    exact (numbered_iff.mp hit).1
  · intro number inside
    obtain ⟨key,_,hit⟩ := (numbers number).mp inside
    exact ⟨(numbered_iff.mp hit).2.1,(numbered_iff.mp hit).2.2.1⟩
  · intro number
    rw [numbers]
    constructor
    · intro held
      obtain ⟨key,in_keys,hit⟩ := held
      obtain ⟨_,_,_,rfl⟩ := numbered_iff.mp hit
      exact ⟨in_keys,hit⟩
    · intro held
      exact ⟨_,held.1,held.2⟩

theorem mem_grouped_of_numbered {project : Units} {number : ℕ} (in_keys : key ∈ keys)
    (hit : numbered key = some ⟨project,number⟩) :
    ∃ e ∈ (grouped keys).entries, e.1 = project ∧ number ∈ e.2 := by
  have mem : number ∈ Grouping.bucket Numbered.project Numbered.number (keys.filterMap numbered)
      project :=
    Grouping.mem_bucket.mpr ⟨_,mem_filterMap.mpr ⟨key,in_keys,hit⟩,rfl,rfl⟩
  exact ⟨_,Grouping.mem_group.mpr ⟨rfl,ne_nil_of_mem mem⟩,rfl,mem⟩

def groupKeys (entry : Units × List ℕ) : List Units :=
  (distinctNumbers entry.2).map (keyText entry.1)

theorem mem_groupKeys (mem : e ∈ (grouped keys).entries) :
    key ∈ groupKeys e ↔ key ∈ keys ∧ ∃ number, numbered key = some ⟨e.1,number⟩ := by
  obtain ⟨_,_,numbers⟩ := mem_grouped mem
  rw [groupKeys,mem_map]
  constructor
  · intro held
    obtain ⟨number,inside,rfl⟩ := held
    obtain ⟨in_keys,hit⟩ := (numbers number).mp (mem_distinctNumbers.mp inside)
    exact ⟨in_keys,number,hit⟩
  · intro held
    obtain ⟨in_keys,number,hit⟩ := held
    obtain ⟨_,_,_,rfl⟩ := numbered_iff.mp hit
    exact ⟨number,mem_distinctNumbers.mpr ((numbers number).mpr ⟨in_keys,hit⟩),rfl⟩

theorem nodup_groupKeys (mem : e ∈ (grouped keys).entries) : (groupKeys e).Nodup := by
  obtain ⟨_,_,numbers⟩ := mem_grouped mem
  apply List.Nodup.map_on _ (nodup_distinctNumbers e.2)
  intro number inside number' inside' same
  have hit := ((numbers number).mp (mem_distinctNumbers.mp inside)).2
  have found' := ((numbers number').mp (mem_distinctNumbers.mp inside')).2
  rw [same] at hit
  exact (Numbered.mk.inj (Option.some.inj (hit.symm.trans found'))).2

def plainKeys (keys : List Units) : List Units :=
  Comparator.sort compareIssueKeys (Distinct.collect isPlain [] keys)

theorem mem_plainKeys : key ∈ plainKeys keys ↔ key ∈ keys ∧ numbered key = none := by
  rw [plainKeys,Comparator.mem_sort,Distinct.mem_collect,isPlain,Option.isNone_iff_eq_none]
  simp [and_comm]

theorem compactRuns_eq (keys : List Units) : compactRuns keys =
    (grouped keys).entries.flatMap (fun e => projectRuns e.1 e.2) ++
      (plainKeys keys).map fun key => ⟨key,1⟩ := rfl

theorem namedBy_compactRuns (spelled : Spelled keys) : namedBy (compactRuns keys) =
    (grouped keys).entries.flatMap groupKeys ++ plainKeys keys := by
  rw [compactRuns_eq,namedBy,flatMap_append,flatMap_assoc,flatMap_map]
  congr 1
  · apply flatMap_congr
    intro e mem
    obtain ⟨is_project,are_numbers,_⟩ := mem_grouped mem
    exact (projectRuns_spec is_project are_numbers).2
  · have single : ∀ key ∈ plainKeys keys, expandPiece key = [key] := by
      intro key mem
      obtain ⟨in_keys,plain⟩ := mem_plainKeys.mp mem
      rw [expandPiece,(spelled key in_keys plain).2]
    rw [flatMap_congr single,flatMap_singleton']

theorem exact_compactRuns (spelled : Spelled keys) : ∀ run ∈ compactRuns keys, Exact run := by
  intro run mem
  rw [compactRuns_eq] at mem
  rcases mem_append.mp mem with in_groups | in_plain
  · obtain ⟨e,inside,in_runs⟩ := mem_flatMap.mp in_groups
    obtain ⟨is_project,are_numbers,_⟩ := mem_grouped inside
    exact (projectRuns_spec is_project are_numbers).1 run in_runs
  · obtain ⟨key,inside,rfl⟩ := mem_map.mp in_plain
    obtain ⟨in_keys,plain⟩ := mem_plainKeys.mp inside
    refine ⟨(spelled key in_keys plain).1,?_⟩
    rw [expandPiece,(spelled key in_keys plain).2]
    rfl

theorem mem_namedBy (spelled : Spelled keys) : key ∈ namedBy (compactRuns keys) ↔ key ∈ keys := by
  rw [namedBy_compactRuns spelled,mem_append,mem_flatMap,mem_plainKeys]
  constructor
  · intro named
    obtain ⟨e,mem,held⟩ | ⟨in_keys,_⟩ := named
    · exact ((mem_groupKeys mem).mp held).1
    · exact in_keys
  · intro in_keys
    cases hit : numbered key with
    | none => exact .inr ⟨in_keys,rfl⟩
    | some parts =>
      obtain ⟨e,mem,same,_⟩ := mem_grouped_of_numbered in_keys hit
      exact .inl ⟨e,mem,(mem_groupKeys mem).mpr ⟨in_keys,parts.number,same ▸ hit⟩⟩

theorem nodup_namedBy (spelled : Spelled keys) : (namedBy (compactRuns keys)).Nodup := by
  rw [namedBy_compactRuns spelled]
  refine List.Nodup.append ?_ ?_ ?_
  · refine nodup_flatMap.mpr ⟨fun e => nodup_groupKeys,?_⟩
    have nodup : (grouped keys).entries.Pairwise fun a b => a.1 ≠ b.1 :=
      pairwise_map.mp (grouped keys).distinct
    refine nodup.imp_of_mem ?_
    intro a b mem inside' differ key held held'
    obtain ⟨_,number,hit⟩ := (mem_groupKeys mem).mp held
    obtain ⟨_,number',found'⟩ := (mem_groupKeys inside').mp held'
    exact differ (Numbered.mk.inj (Option.some.inj (hit.symm.trans found'))).1
  · exact (Comparator.perm_sort _ _).nodup_iff.mpr (Distinct.nodup_collect _ keys nodup_nil)
  · intro key in_groups in_plain
    obtain ⟨e,mem,held⟩ := mem_flatMap.mp in_groups
    obtain ⟨_,number,hit⟩ := (mem_groupKeys mem).mp held
    rw [(mem_plainKeys.mp in_plain).2] at hit
    cases hit

end Lists

section Packing
variable {keys : List Units} {packed : List PackedKeys} {run : Run}

theorem expand_label (exact_run : Exact run) : expand run.label = expandPiece run.label := by
  rw [expand,splitOn_eq_singleton exact_run.whole,flatMap_singleton]

theorem expand_append (t label : Units) : expand (t ++ comma :: label) = expand t ++ expand label := by
  rw [expand,splitOn_append_cons_self,flatMap_append]
  rfl

def Counted (packed : List PackedKeys) : Prop :=
  ∀ entry ∈ packed, entry.keys = (expand entry.text).length

theorem expandAll_packRun (counted : Counted packed) (exact_run : Exact run) :
    expandAll (packRun packed run) = expandAll packed ++ expandPiece run.label ∧ Counted (packRun packed run) := by
  have single : run.keys = (expand run.label).length := by
    rw [expand_label exact_run,← exact_run.counted]
  have added : expandAll (packed ++ [⟨run.label,run.keys⟩]) =
      expandAll packed ++ expandPiece run.label ∧ Counted (packed ++ [⟨run.label,run.keys⟩]) := by
    constructor
    · rw [expandAll,flatMap_append,flatMap_singleton,expand_label exact_run]
      rfl
    · intro e mem
      rcases mem_append.mp mem with old | new
      · exact counted e old
      · rw [mem_singleton.mp new]
        exact single
  unfold packRun
  split
  next last hit =>
    split
    next fits =>
      have split := dropLast_append_getLast? last hit
      have last_counted := counted last (split ▸ mem_append_right _ (mem_singleton_self last))
      constructor
      · conv_rhs => rw [← split]
        rw [expandAll,expandAll,flatMap_append,flatMap_append,flatMap_singleton,
          flatMap_singleton,expand_append,expand_label exact_run,append_assoc]
      · intro e mem
        rcases mem_append.mp mem with old | new
        · exact counted e (mem_of_mem_dropLast old)
        · rw [mem_singleton.mp new]
          show last.keys + run.keys = (expand (last.text ++ comma :: run.label)).length
          rw [expand_append,length_append,last_counted,single]
    next => exact added
  next => exact added

theorem expandAll_pack {runs : List Run} (all_exact : ∀ run ∈ runs, Exact run) :
    expandAll (runs.foldl packRun []) = namedBy runs ∧ Counted (runs.foldl packRun []) := by
  induction runs using reverseRecOn with
  | nil => exact ⟨rfl,fun e absent => absurd absent not_mem_nil⟩
  | append_singleton runs run ih =>
    obtain ⟨named,counted⟩ := ih fun other mem => all_exact other (mem_append_left _ mem)
    obtain ⟨added,counted'⟩ := expandAll_packRun counted (all_exact run (by simp))
    rw [foldl_append,foldl_cons,foldl_nil]
    refine ⟨?_,counted'⟩
    rw [added,named,namedBy,namedBy,flatMap_append,flatMap_singleton]

/-- What a packing of keys is to be: every key is named once, and every entry counts its keys. -/
structure Packs (keys : List Units) (packed : List PackedKeys) : Prop where
  names : ∀ key, key ∈ expandAll packed ↔ key ∈ keys
  once : (expandAll packed).Nodup
  counted : Counted packed

theorem packs (spelled : Spelled keys) : Packs keys (packIssueKeys keys) := by
  obtain ⟨named,counted⟩ := expandAll_pack (exact_compactRuns spelled)
  refine ⟨?_,?_,counted⟩
  · intro key
    rw [packIssueKeys,named,mem_namedBy spelled]
  · rw [packIssueKeys,named]
    exact nodup_namedBy spelled

end Packing

section Listing
variable {entries packed : List PackedKeys} {keys : List Units} {budget ceiling : ℤ}

theorem entryBytes_pos (e : PackedKeys) : 0 < entryBytes e := by
  unfold entryBytes
  omega

theorem listedBytes_nonneg (entries : List PackedKeys) : 0 ≤ listedBytes entries := by
  apply sum_nonneg
  intro bytes mem
  obtain ⟨e,_,rfl⟩ := mem_map.mp mem
  exact (entryBytes_pos e).le

theorem leadingFrom_spec (budget ceiling : ℤ) (kept : ℕ) (used : ℤ) (entries : List PackedKeys) :
    leadingFrom budget ceiling kept used entries <+: entries ∧ (leadingFrom budget ceiling kept used entries = [] ∨
        used + listedBytes (leadingFrom budget ceiling kept used entries) ≤ budget ∧
          (kept : ℤ) + (leadingFrom budget ceiling kept used entries).length ≤ ceiling) := by
  induction entries generalizing kept used with
  | nil => exact ⟨prefix_refl [],.inl rfl⟩
  | cons e entries ih =>
    obtain ⟨leads,fits⟩ := ih (kept + 1) (used + entryBytes e)
    rw [leadingFrom]
    split
    next => exact ⟨List.nil_prefix,.inl rfl⟩
    next goes_on =>
      push Not at goes_on
      refine ⟨cons_prefix_cons.mpr ⟨rfl,leads⟩,.inr ?_⟩
      rw [listedBytes,map_cons,sum_cons,length_cons]
      rcases fits with nothing | ⟨bytes,count⟩
      · rw [nothing,map_nil,sum_nil,length_nil]
        constructor
        · omega
        · omega
      · rw [listedBytes] at bytes
        push_cast at count ⊢
        constructor
        · omega
        · omega

theorem leading_spec (entries : List PackedKeys) (budget ceiling : ℤ) : leading entries budget ceiling <+: entries ∧
      listedBytes (leading entries budget ceiling) ≤ max budget 0 ∧
        ((leading entries budget ceiling).length : ℤ) ≤ max ceiling 0 := by
  obtain ⟨leads,fits⟩ := leadingFrom_spec budget ceiling 0 0 entries
  refine ⟨leads,?_⟩
  rcases fits with nothing | ⟨bytes,count⟩
  · rw [leading,nothing]
    exact ⟨le_max_right _ _,le_max_right _ _⟩
  · rw [leading]
    constructor
    · omega
    · omega

def unlistedKeys (keys : List Units) (entries : List PackedKeys) : Finset Units :=
  keys.toFinset \ (expandAll entries).toFinset

theorem listedKeys_eq (counted : Counted entries) : listedKeys entries = ((expandAll entries).length : ℤ) := by
  rw [listedKeys,expandAll,length_flatMap,Nat.cast_list_sum,map_map]
  apply congrArg sum
  apply map_congr_left
  intro e mem
  rw [Function.comp_apply,counted e mem]

theorem unlisted_eq (packing : Packs keys packed) (leads : entries <+: packed) :
    listedKeys packed - listedKeys entries = ((unlistedKeys keys entries).card : ℤ) := by
  obtain ⟨rest,rfl⟩ := leads
  have counted : Counted entries := fun e mem =>
    packing.counted e (mem_append_left rest mem)
  have once := packing.once
  have whole : expandAll (entries ++ rest) = expandAll entries ++ expandAll rest :=
    flatMap_append
  have remaining : unlistedKeys keys entries = (expandAll rest).toFinset := by
    rw [whole] at once
    ext key
    rw [unlistedKeys,Finset.mem_sdiff,mem_toFinset,mem_toFinset,mem_toFinset,← packing.names key,whole,mem_append]
    constructor
    · intro left_out
      exact left_out.1.resolve_left left_out.2
    · intro in_rest
      exact ⟨.inr in_rest,fun listed => disjoint_of_nodup_append once listed in_rest⟩
  rw [whole] at once
  rw [listedKeys_eq packing.counted,listedKeys_eq counted,whole,remaining,
    toFinset_card_of_nodup once.of_append_right,length_append]
  push_cast
  omega

/-- What a listing of created and existing keys is to be, the keys counted for each list. -/
structure Lists (created existing : List Units) (budget ceiling : ℤ) (listed : ListedIssueKeys) :
    Prop where
  created_leads : listed.created <+: packIssueKeys created
  existing_leads : listed.existing <+: packIssueKeys existing
  bytes : listedBytes listed.created + listedBytes listed.existing ≤ max budget 0
  created_entries : (listed.created.length : ℤ) ≤ max ceiling 0
  existing_entries : (listed.existing.length : ℤ) ≤ max ceiling 0
  unlisted : listed.unlisted = (unlistedKeys created listed.created).card + (unlistedKeys existing listed.existing).card

theorem lists {created existing : List Units} (spelled : Spelled created)
    (spelled' : Spelled existing) (budget ceiling : ℤ) :
    Lists created existing budget ceiling (listIssueKeys created existing budget ceiling) := by
  have reserve := listedBytes_nonneg (packIssueKeys existing)
  unfold listIssueKeys
  simp only
  generalize reserved : min (listedBytes (packIssueKeys existing)) (budget / 2) = reserve_bytes
  obtain ⟨leads,bytes,count⟩ := leading_spec (packIssueKeys created) (budget - reserve_bytes) ceiling
  have used := listedBytes_nonneg (leading (packIssueKeys created) (budget - reserve_bytes) ceiling)
  obtain ⟨leads',bytes',count'⟩ := leading_spec (packIssueKeys existing)
    (budget - listedBytes (leading (packIssueKeys created) (budget - reserve_bytes) ceiling)) ceiling
  refine ⟨leads,leads',?_,count,count',?_⟩
  · simp only
    omega
  · simp only [unlisted_eq (packs spelled) leads,unlisted_eq (packs spelled') leads']

/-- Keys that spell no range are packed exactly, and what is listed of them is a part within its
bounds with a count of the rest. -/
theorem packs_and_lists {created existing : List Units} (spelled : Spelled created)
    (spelled' : Spelled existing) (budget ceiling : ℤ) :
    Packs created (packIssueKeys created) ∧
      Lists created existing budget ceiling (listIssueKeys created existing budget ceiling) :=
  ⟨packs spelled,lists spelled spelled' budget ceiling⟩

theorem packs_and_lists_scattered :
    Packs [units "SYN-1",units "SYN-2",units "odd key"]
        (packIssueKeys [units "SYN-1",units "SYN-2",units "odd key"]) ∧
      Lists [units "SYN-1",units "SYN-2",units "odd key"] [units "SYN-9"] 40 10
        (listIssueKeys [units "SYN-1",units "SYN-2",units "odd key"] [units "SYN-9"] 40 10) := by
  apply packs_and_lists
  · unfold Spelled
    decide +kernel
  · unfold Spelled
    decide +kernel

/-- A key that spells a range is lost in it; a key of both lists is counted in each; and below zero
nothing that is listed fits. -/
theorem range_key_lost :
    (comma ∉ units "A-1..A-3" ∧
        ¬ Packs [units "A-1..A-3"] (packIssueKeys [units "A-1..A-3"])) ∧
      ((listIssueKeys [units "A-1"] [units "A-1"] 0 0).unlisted = 2 ∧
        (unlistedKeys ([units "A-1"] ++ [units "A-1"]) []).card = 1) ∧
      ¬ (listedBytes (listIssueKeys [] [] (-1) (-1)).created ≤ -1) := by
  refine ⟨⟨by decide,?_⟩,by decide +kernel,by decide +kernel⟩
  intro packing
  have named := (packing.names (units "A-1..A-3")).mpr (mem_singleton_self _)
  exact absurd named (by decide +kernel)

end Listing

end Keiko.JiraDraftKeyRanges
