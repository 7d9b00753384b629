import Mathlib.Data.List.Induction
import Keiko.RequirementComparison

/-! What the comparison of an inventory with a backlog reports: which entries it puts where, what it
files as missing and for which items, and when the order of the backlog does not show. -/
namespace Keiko.RequirementComparison
open List
open Library Comparators
open ComparableRequirement (digest documentScope)

section Keys
variable {keys others : List Units} {a b : Units}

@[simp] theorem mem_distinct {item : Units} {xs : List Units} : item ∈ distinct xs ↔ item ∈ xs := by
  simp [distinct]

theorem nodup_distinct (xs : List Units) : (distinct xs).Nodup :=
  Distinct.nodup_collect _ xs nodup_nil

@[simp] theorem mem_sortedKeys : a ∈ sortedKeys keys ↔ a ∈ keys := by
  rw [sortedKeys,Comparator.mem_sort,mem_distinct]

theorem nodup_sortedKeys (keys : List Units) : (sortedKeys keys).Nodup :=
  (Comparator.perm_sort _ _).nodup_iff.mpr (nodup_distinct keys)

theorem sortedKeys_congr (same : ∀ key, key ∈ keys ↔ key ∈ others)
    (apart : ∀ a ∈ keys, ∀ b ∈ keys, compareIssueKeys a b = 0 → a = b) :
    sortedKeys keys = sortedKeys others := by
  apply Comparator.sort_eq_of_perm lawful_compareIssueKeys
  · apply (perm_ext_iff_of_nodup (nodup_distinct keys) (nodup_distinct others)).mpr
    intro key
    rw [mem_distinct,mem_distinct,same]
  · intro a in_keys b in_keys'
    exact apart a (mem_distinct.mp in_keys) b (mem_distinct.mp in_keys')

theorem pair_sublist_sortedKeys (level : compareIssueKeys a b = 0) (early : a ∈ keys)
    (late : b ∈ others) (absent : b ∉ keys) : [a,b].Sublist (sortedKeys (keys ++ others)) :=
  Comparator.pair_sublist_sort lawful_compareIssueKeys level.le
    (Distinct.pair_sublist_collect _ rfl rfl early late absent)

end Keys

section Orders
variable {backlog others : List RequirementTracedIssue} {keep : ParsedIssue → Bool}

theorem tracedIssues_perm (same : others.Perm backlog) : (tracedIssues others).Perm (tracedIssues backlog) :=
  (same.map parse).filter _

theorem tracedIssues_filter (keep : ParsedIssue → Bool) (backlog : List RequirementTracedIssue) :
    tracedIssues (backlog.filter fun issue => keep (parse issue)) = (tracedIssues backlog).filter keep := by
  have mapped : (backlog.filter fun issue => keep (parse issue)).map parse =
      (backlog.map parse).filter keep := filter_map.symm
  rw [tracedIssues,mapped,filter_comm,tracedIssues]

def front (first : ParsedIssue → Bool) (backlog : List RequirementTracedIssue) : List RequirementTracedIssue :=
  backlog.filter (fun issue => first (parse issue)) ++ backlog.filter fun issue => !first (parse issue)

theorem front_perm (first : ParsedIssue → Bool) (backlog : List RequirementTracedIssue) :
    (front first backlog).Perm backlog :=
  filter_append_perm _ backlog

theorem tracedIssues_front (first : ParsedIssue → Bool) (backlog : List RequirementTracedIssue) :
    tracedIssues (front first backlog) =
      (tracedIssues backlog).filter first ++ (tracedIssues backlog).filter fun issue =>
        !first issue := by
  rw [front,tracedIssues,map_append,filter_append]
  exact congrArg₂ (· ++ ·) (tracedIssues_filter first backlog) (tracedIssues_filter (fun issue => !first issue) backlog)

def keysOf (keep : ParsedIssue → Bool) (issues : List ParsedIssue) : List Units :=
  (issues.filter keep).map ParsedIssue.key

@[simp] theorem mem_keysOf {issues : List ParsedIssue} {key : Units} :
    key ∈ keysOf keep issues ↔ ∃ issue ∈ issues, keep issue = true ∧ issue.key = key := by
  simp [keysOf,and_assoc]

theorem keysOf_append (keep : ParsedIssue → Bool) (first second : List ParsedIssue) :
    keysOf keep (first ++ second) = keysOf keep first ++ keysOf keep second := by
  rw [keysOf,filter_append,map_append]
  rfl

def Apart (keep : ParsedIssue → Bool) (issues : List ParsedIssue) : Prop :=
  ∀ a ∈ issues, ∀ b ∈ issues, keep a = true → keep b = true → compareIssueKeys a.key b.key = 0 → a.key = b.key

theorem sortedKeys_perm (same : others.Perm backlog) (apart : Apart keep (tracedIssues backlog)) :
    sortedKeys (keysOf keep (tracedIssues others)) = sortedKeys (keysOf keep (tracedIssues backlog)) := by
  symm
  apply sortedKeys_congr
  · intro key
    simp only [mem_keysOf,(tracedIssues_perm same).mem_iff]
  · intro a in_keys b in_keys'
    obtain ⟨issue,mem,kept,rfl⟩ := mem_keysOf.mp in_keys
    obtain ⟨issue',member',kept',rfl⟩ := mem_keysOf.mp in_keys'
    exact apart issue mem issue' member' kept kept'

theorem pair_front {a b : ParsedIssue} (in_a : a ∈ tracedIssues backlog)
    (in_b : b ∈ tracedIssues backlog) (kept : keep a = true) (kept' : keep b = true)
    (level : compareIssueKeys a.key b.key = 0) (differ : a.key ≠ b.key) :
    [a.key,b.key].Sublist (sortedKeys (keysOf keep
      (tracedIssues (front (fun issue => issue.key == a.key) backlog)))) := by
  rw [tracedIssues_front,keysOf_append]
  apply pair_sublist_sortedKeys level
  · exact mem_keysOf.mpr ⟨a,mem_filter.mpr ⟨in_a,beq_self_eq_true a.key⟩,kept,rfl⟩
  · exact mem_keysOf.mpr ⟨b,mem_filter.mpr ⟨in_b,by simpa using Ne.symm differ⟩,kept',rfl⟩
  · intro early
    obtain ⟨issue,mem,_,same⟩ := mem_keysOf.mp early
    have first := (mem_filter.mp mem).2
    rw [beq_iff_eq,same] at first
    exact differ first.symm

theorem sortedKeys_orderless_iff (keep : ParsedIssue → Bool) (backlog : List RequirementTracedIssue) :
    (∀ others, others.Perm backlog → sortedKeys (keysOf keep (tracedIssues others)) =
        sortedKeys (keysOf keep (tracedIssues backlog))) ↔ Apart keep (tracedIssues backlog) := by
  constructor
  · intro orderless a in_a b in_b kept kept' level
    by_contra differ
    have swapped := lawful_compareIssueKeys.swap a.key b.key
    have forward := pair_front in_a in_b kept kept' level differ
    have back := pair_front in_b in_a kept' kept (by omega) (Ne.symm differ)
    rw [orderless _ (front_perm _ backlog)] at forward back
    exact Distinct.not_pair_sublist_swap (nodup_sortedKeys _) differ forward back
  · intro apart others same
    exact sortedKeys_perm same apart

end Orders

section Slots
variable {cur known : List Units} {removed : OrderedMap Units Slot} {scope scope' id id' key : Units}
  {issue : ParsedIssue} {issues : List ParsedIssue}

theorem slotKey_inj (plain : 0 ∉ scope) (plain' : 0 ∉ scope')
    (same : slotKey scope id = slotKey scope' id') : scope = scope' ∧ id = id' := by
  have pre : ∀ scope id : Units, 0 ∉ scope → (slotKey scope id).takeWhile (fun c => c != 0) = scope := by
    intro scope id plain
    rw [slotKey,takeWhile_append_of_pos]
    · simp
    · intro c mem
      rw [bne_iff_ne]
      intro zero
      exact plain (zero ▸ mem)
  have scopes : scope = scope' := by
    rw [← pre scope id plain,same,pre scope' id' plain']
  subst scopes
  exact ⟨rfl,(cons.inj (append_cancel_left same)).2⟩

def filings (cur known : List Units) (issue : ParsedIssue) : List (Units × Units) :=
  match (currentScopes cur issue).head? with
  | none => []
  | some scope =>
    (issue.requirements.filter fun id => !(currentScopes cur issue).any fun candidate =>
      known.contains (slotKey candidate id)).map fun id => (scope,id)

def files (cur known : List Units) (scope id : Units) (issue : ParsedIssue) : Bool :=
  (filings cur known issue).contains (scope,id)

theorem collectMissing_eq (cur known : List Units) (removed : OrderedMap Units Slot)
    (issue : ParsedIssue) : collectMissing cur known removed issue =
      (filings cur known issue).foldl (fun removed filing =>
        push removed filing.1 filing.2 issue.key) removed := by
  unfold collectMissing filings
  cases first : (currentScopes cur issue).head? with
  | none => simp only [first,foldl_nil]
  | some scope =>
    simp only [first]
    rw [foldl_map,foldl_filter]
    congr 1
    funext removed id
    cases (currentScopes cur issue).any fun c =>
        known.contains (slotKey c id) with
    | true => rfl
    | false => rfl

theorem mem_currentScopes : scope ∈ currentScopes cur issue ↔ scope ∈ issue.documents ∧ scope ∈ cur := by
  rw [currentScopes,Comparator.mem_sort,mem_filter,contains_iff_mem]

theorem files_iff : files cur known scope id issue = true ↔
    (currentScopes cur issue).head? = some scope ∧ id ∈ issue.requirements ∧
      ∀ c ∈ currentScopes cur issue, slotKey c id ∉ known := by
  unfold files filings
  rw [contains_iff_mem]
  split
  next none_current =>
    rw [none_current]
    simp
  next first head =>
    rw [head]
    simp only [mem_map,mem_filter,Bool.not_eq_true',any_eq_false,contains_iff_mem,Prod.mk.injEq,Option.some.injEq]
    constructor
    · intro filed
      obtain ⟨_,⟨traced,unstated⟩,same,rfl⟩ := filed
      exact ⟨same,traced,unstated⟩
    · intro filed
      obtain ⟨same,traced,unstated⟩ := filed
      exact ⟨id,⟨traced,unstated⟩,same,rfl⟩

theorem mem_documents_of_files (filed : files cur known scope id issue = true) :
    scope ∈ issue.documents ∧ scope ∈ cur :=
  mem_currentScopes.mp (mem_of_head? (files_iff.mp filed).1)

theorem get?_push_self (removed : OrderedMap Units Slot) (scope id key : Units) :
    (push removed scope id key).get? (slotKey scope id) =
      let slot := (removed.get? (slotKey scope id)).getD ⟨id,scope,[]⟩
      some { slot with keys := slot.keys ++ [key] } :=
  OrderedMap.get?_set_self _

theorem get?_push_of_ne (removed : OrderedMap Units Slot) (key : Units) {other : Units}
    (differ : other ≠ slotKey scope id) :
    (push removed scope id key).get? other = removed.get? other :=
  OrderedMap.get?_set_of_ne _ differ

theorem keys_push (removed : OrderedMap Units Slot) (scope id key : Units) : (push removed scope id key).keys =
      Distinct.add (fun _ => true) removed.keys (slotKey scope id) := by
  unfold push Distinct.add
  rw [OrderedMap.keys_set]
  by_cases here : slotKey scope id ∈ removed.keys
  · rw [if_pos here,if_neg fun fresh => fresh.2 here]
  · rw [if_neg here,if_pos ⟨rfl,here⟩]

theorem get?_pushes (plain : 0 ∉ scope) (id key : Units) (filed : List (Units × Units))
    (apart : filed.Nodup) (plains : ∀ filing ∈ filed, 0 ∉ filing.1)
    (removed : OrderedMap Units Slot) :
    (filed.foldl (fun removed filing => push removed filing.1 filing.2 key) removed).get? (slotKey scope id) =
      if (scope,id) ∈ filed then
        let slot := (removed.get? (slotKey scope id)).getD ⟨id,scope,[]⟩
        some { slot with keys := slot.keys ++ [key] }
      else removed.get? (slotKey scope id) := by
  induction filed generalizing removed with
  | nil => rw [foldl_nil,if_neg not_mem_nil]
  | cons filing filed ih =>
    rw [nodup_cons] at apart
    have rest := ih apart.2 (fun other mem => plains other (mem_cons_of_mem _ mem)) (push removed filing.1 filing.2 key)
    rw [foldl_cons,rest]
    by_cases here : (scope,id) = filing
    · subst here
      rw [if_neg apart.1,if_pos mem_cons_self,get?_push_self]
    · have elsewhere : slotKey scope id ≠ slotKey filing.1 filing.2 := by
        intro same
        obtain ⟨scopes,ids⟩ := slotKey_inj plain (plains filing mem_cons_self) same
        exact here (Prod.ext scopes ids)
      rw [get?_push_of_ne removed key elsewhere]
      simp only [mem_cons,here,false_or]

theorem keys_pushes (key : Units) (filed : List (Units × Units)) (removed : OrderedMap Units Slot) :
    (filed.foldl (fun removed filing => push removed filing.1 filing.2 key) removed).keys =
      Distinct.collect (fun _ => true) removed.keys (filed.map fun filing =>
        slotKey filing.1 filing.2) := by
  induction filed generalizing removed with
  | nil => rfl
  | cons filing filed ih =>
    rw [foldl_cons,ih,keys_push]
    rfl

def slots (cur known : List Units) (issues : List ParsedIssue) : OrderedMap Units Slot :=
  issues.foldl (collectMissing cur known) OrderedMap.empty

theorem slots_append (issue : ParsedIssue) : slots cur known (issues ++ [issue]) =
    (filings cur known issue).foldl (fun removed filing =>
      push removed filing.1 filing.2 issue.key) (slots cur known issues) := by
  rw [slots,foldl_append,foldl_cons,foldl_nil,collectMissing_eq]
  rfl

theorem keys_slots (cur known : List Units) (issues : List ParsedIssue) :
    (slots cur known issues).keys = distinct (issues.flatMap fun issue =>
      (filings cur known issue).map fun filing => slotKey filing.1 filing.2) := by
  induction issues using reverseRecOn with
  | nil => rfl
  | append_singleton issues issue ih =>
    rw [slots_append,keys_pushes,ih,flatMap_append,flatMap_singleton]
    exact (Distinct.collect_append _ [] _ _).symm

theorem nodup_filings (nodup : issue.requirements.Nodup) : (filings cur known issue).Nodup := by
  unfold filings
  split
  · exact nodup_nil
  · exact (nodup.filter _).map fun _ _ same => (Prod.mk.inj same).2

theorem plain_filings (plains : ∀ scope ∈ cur, 0 ∉ scope) :
    ∀ filing ∈ filings cur known issue, 0 ∉ filing.1 := by
  intro filing filed
  have hit : files cur known filing.1 filing.2 issue = true := contains_iff_mem.mpr filed
  exact plains filing.1 (mem_documents_of_files hit).2

theorem get?_slots (known : List Units) (id : Units)
    (plains : ∀ scope ∈ cur, 0 ∉ scope) (plain : 0 ∉ scope) (apart : ∀ issue ∈ issues, issue.requirements.Nodup) :
    (slots cur known issues).get? (slotKey scope id) =
      if keysOf (files cur known scope id) issues = [] then none
      else some ⟨id,scope,keysOf (files cur known scope id) issues⟩ := by
  induction issues using reverseRecOn with
  | nil => rfl
  | append_singleton issues issue ih =>
    have pre := ih fun other mem => apart other (mem_append_left _ mem)
    rw [slots_append,get?_pushes plain id issue.key _
      (nodup_filings (apart issue (by simp))) (plain_filings plains),pre,keysOf_append]
    by_cases filed : (scope,id) ∈ filings cur known issue
    · have hit : files cur known scope id issue = true := contains_iff_mem.mpr filed
      have single : keysOf (files cur known scope id) [issue] = [issue.key] := by
        simp [keysOf,hit]
      have held : keysOf (files cur known scope id) issues ++ [issue.key] ≠ [] :=
        append_ne_nil_of_right_ne_nil _ (cons_ne_nil _ _)
      rw [if_pos filed,single,if_neg held]
      by_cases none_before : keysOf (files cur known scope id) issues = []
      · rw [if_pos none_before,none_before]
        rfl
      · rw [if_neg none_before]
        rfl
    · have unfound : files cur known scope id issue = false := by
        simpa [files] using filed
      have nothing : keysOf (files cur known scope id) [issue] = [] := by
        simp [keysOf,unfound]
      rw [if_neg filed,nothing,append_nil]

end Slots

section Places
variable {cur known : List Units} {issues : List ParsedIssue} {scope id : Units} {slot : Slot}

def Slot.place (slot : Slot) : Units × Units := (slot.scope,slot.id)

structure Parsed (cur : List Units) (issues : List ParsedIssue) : Prop where
  apart : ∀ issue ∈ issues, issue.requirements.Nodup
  plains : ∀ scope ∈ cur, 0 ∉ scope

theorem mem_keys_slots {key : Units} : key ∈ (slots cur known issues).keys ↔
    ∃ issue ∈ issues, ∃ scope id, files cur known scope id issue = true ∧ key = slotKey scope id := by
  rw [keys_slots,mem_distinct,mem_flatMap]
  constructor
  · intro mem
    obtain ⟨issue,inside,filed⟩ := mem
    obtain ⟨⟨scope,id⟩,here,rfl⟩ := mem_map.mp filed
    exact ⟨issue,inside,scope,id,contains_iff_mem.mpr here,rfl⟩
  · intro mem
    obtain ⟨issue,inside,scope,id,filed,rfl⟩ := mem
    exact ⟨issue,inside,mem_map.mpr ⟨(scope,id),contains_iff_mem.mp filed,rfl⟩⟩

theorem Parsed.plain (parsed : Parsed cur issues) {issue : ParsedIssue}
    (filed : files cur known scope id issue = true) : 0 ∉ scope :=
  parsed.plains scope (mem_documents_of_files filed).2

theorem mem_slots (parsed : Parsed cur issues) : slot ∈ (slots cur known issues).values ↔
    slot.keys = keysOf (files cur known slot.scope slot.id) issues ∧ slot.keys ≠ [] := by
  rw [OrderedMap.values,mem_map]
  constructor
  · intro mem
    obtain ⟨⟨key,_⟩,inside,rfl⟩ := mem
    obtain ⟨issue,in_issues,scope,id,filed,rfl⟩ :=
      mem_keys_slots.mp (mem_map_of_mem (f := Prod.fst) inside)
    have held := OrderedMap.mem_entries.mp inside
    rw [get?_slots known id parsed.plains (parsed.plain filed) parsed.apart] at held
    split at held
    next => cases held
    next full =>
      obtain rfl := Option.some.inj held
      exact ⟨rfl,full⟩
  · intro both
    obtain ⟨same,full⟩ := both
    obtain ⟨key,in_keys⟩ := exists_mem_of_ne_nil _ (same ▸ full)
    obtain ⟨issue,in_issues,filed,_⟩ := mem_keysOf.mp in_keys
    have held := get?_slots known slot.id parsed.plains (parsed.plain filed) parsed.apart
    rw [← same,if_neg full] at held
    exact ⟨(slotKey slot.scope slot.id,slot),OrderedMap.mem_entries.mpr held,rfl⟩

theorem map_slotKey_values (parsed : Parsed cur issues) :
    (slots cur known issues).values.map (fun slot => slotKey slot.scope slot.id) =
      (slots cur known issues).keys := by
  rw [OrderedMap.values,OrderedMap.keys,map_map]
  apply map_congr_left
  intro e mem
  obtain ⟨issue,in_issues,scope,id,filed,key⟩ :=
    mem_keys_slots.mp (mem_map_of_mem (f := Prod.fst) mem)
  have held := OrderedMap.mem_entries.mp mem
  rw [key,get?_slots known id parsed.plains (parsed.plain filed) parsed.apart] at held
  split at held
  next => cases held
  next full =>
    rw [key,Function.comp_apply,← Option.some.inj held]

def compareSlots : Slot → Slot → ℤ :=
  Comparator.mapped (fun slot => slot.scope ++ slot.id) compareStrings

def sortedSlots (cur known : List Units) (keep : Units → Bool) (issues : List ParsedIssue) : List Slot :=
  (Comparator.sort compareSlots (slots cur known issues).values).filter fun slot =>
    keep slot.scope

def places (cur known : List Units) (keep : Units → Bool) (issues : List ParsedIssue) : List (Units × Units) :=
  (sortedSlots cur known keep issues).map Slot.place

variable {keep : Units → Bool}

theorem mem_sortedSlots (parsed : Parsed cur issues) :
    slot ∈ sortedSlots cur known keep issues ↔ keep slot.scope = true ∧
      slot.keys = keysOf (files cur known slot.scope slot.id) issues ∧ slot.keys ≠ [] := by
  rw [sortedSlots,mem_filter,Comparator.mem_sort,mem_slots parsed,and_comm]

theorem mem_places (parsed : Parsed cur issues) : (scope,id) ∈ places cur known keep issues ↔
      keep scope = true ∧ ∃ issue ∈ issues, files cur known scope id issue = true := by
  rw [places,mem_map]
  constructor
  · intro mem
    obtain ⟨slot,inside,same⟩ := mem
    obtain ⟨rfl,rfl⟩ := Prod.mk.inj same
    obtain ⟨kept,keys,full⟩ := (mem_sortedSlots parsed).mp inside
    obtain ⟨key,in_keys⟩ := exists_mem_of_ne_nil _ (keys ▸ full)
    obtain ⟨issue,in_issues,filed,_⟩ := mem_keysOf.mp in_keys
    exact ⟨kept,issue,in_issues,filed⟩
  · intro mem
    obtain ⟨kept,issue,in_issues,filed⟩ := mem
    have full : keysOf (files cur known scope id) issues ≠ [] :=
      ne_nil_of_mem (mem_keysOf.mpr ⟨issue,in_issues,filed,rfl⟩)
    exact ⟨⟨id,scope,keysOf (files cur known scope id) issues⟩,(mem_sortedSlots parsed).mpr ⟨kept,rfl,full⟩,rfl⟩

theorem nodup_places (parsed : Parsed cur issues) : (places cur known keep issues).Nodup := by
  have keys : ((slots cur known issues).values.map fun slot =>
      slotKey slot.scope slot.id).Nodup := by
    rw [map_slotKey_values parsed,keys_slots]
    exact nodup_distinct _
  have all : ((slots cur known issues).values.map Slot.place).Nodup := by
    apply List.Nodup.of_map fun place => slotKey place.1 place.2
    rw [map_map]
    exact keys
  have sorted := ((Comparator.perm_sort compareSlots _).map Slot.place).nodup_iff.mpr all
  exact sorted.sublist (filter_sublist.map Slot.place)

theorem pairwise_places (cur known : List Units) (keep : Units → Bool)
    (issues : List ParsedIssue) : (places cur known keep issues).Pairwise fun a b =>
      compareStrings (a.1 ++ a.2) (b.1 ++ b.2) ≤ 0 :=
  pairwise_map.mpr ((Comparator.pairwise_sort (lawful_compareStrings.mapped _) _).filter _)

theorem parsed_tracedIssues (plains : ∀ scope ∈ cur, 0 ∉ scope)
    (backlog : List RequirementTracedIssue) : Parsed cur (tracedIssues backlog) := by
  refine ⟨?_,plains⟩
  intro issue mem
  obtain ⟨src,_,rfl⟩ := mem_map.mp (mem_filter.mp mem).1
  exact nodup_distinct _

def Tied (cur known : List Units) (keep : Units → Bool) (issues : List ParsedIssue) : Prop :=
  ∃ a ∈ issues, ∃ b ∈ issues, ∃ scope id scope' id', files cur known scope id a = true ∧
    files cur known scope' id' b = true ∧ keep scope = true ∧ keep scope' = true ∧
      scope ≠ scope' ∧ scope ++ id = scope' ++ id'

variable {backlog others : List RequirementTracedIssue}

theorem places_congr (plains : ∀ scope ∈ cur, 0 ∉ scope) (same : others.Perm backlog)
    (untied : ¬ Tied cur known keep (tracedIssues backlog)) :
    places cur known keep (tracedIssues others) = places cur known keep (tracedIssues backlog) := by
  have parsed := parsed_tracedIssues plains backlog
  have parsed' := parsed_tracedIssues plains others
  have permuted : (places cur known keep (tracedIssues others)).Perm
      (places cur known keep (tracedIssues backlog)) := by
    apply (perm_ext_iff_of_nodup (nodup_places parsed') (nodup_places parsed)).mpr
    intro place
    rw [mem_places parsed',mem_places parsed]
    simp only [(tracedIssues_perm same).mem_iff]
  refine permuted.eq_of_pairwise ?_ (pairwise_places _ _ _ _) (pairwise_places _ _ _ _)
  intro a b in_others in_backlog pre after
  obtain ⟨kept,issue,mem,filed⟩ := (mem_places parsed).mp (permuted.mem_iff.mp in_others)
  obtain ⟨kept',issue',member',filed'⟩ := (mem_places parsed).mp in_backlog
  have swapped := lawful_compareStrings.swap (a.1 ++ a.2) (b.1 ++ b.2)
  have joined : a.1 ++ a.2 = b.1 ++ b.2 := compareStrings_eq_zero.mp (by omega)
  have scopes : a.1 = b.1 := by
    by_contra differ
    exact untied ⟨issue,mem,issue',member',a.1,a.2,b.1,b.2,filed,filed',kept,kept',differ,joined⟩
  exact Prod.ext scopes (append_cancel_left (scopes ▸ joined))

theorem pair_places (plains : ∀ scope ∈ cur, 0 ∉ scope) {a b : ParsedIssue}
    (in_a : a ∈ tracedIssues backlog) (in_b : b ∈ tracedIssues backlog)
    {scope' id' : Units} (filed : files cur known scope id a = true)
    (filed' : files cur known scope' id' b = true) (kept : keep scope = true)
    (kept' : keep scope' = true) (differ : scope ≠ scope') (joined : scope ++ id = scope' ++ id') :
    [(scope,id),(scope',id')].Sublist (places cur known keep
      (tracedIssues (front (files cur known scope id) backlog))) := by
  have parsed := parsed_tracedIssues plains (front (files cur known scope id) backlog)
  have plain : 0 ∉ scope := plains scope (mem_documents_of_files filed).2
  have plain' : 0 ∉ scope' := plains scope' (mem_documents_of_files filed').2
  have only_first : ∀ issue, files cur known scope id issue = true →
      ∀ filing ∈ filings cur known issue, filing.1 = scope := by
    intro issue first filing in_filings
    have here := (files_iff.mp (contains_iff_mem.mpr in_filings : files cur known filing.1 filing.2 issue = true)).1
    exact Option.some.inj (here.symm.trans (files_iff.mp first).1)
  have keys : [slotKey scope id,slotKey scope' id'].Sublist (slots cur known
      (tracedIssues (front (files cur known scope id) backlog))).keys := by
    rw [keys_slots,tracedIssues_front,flatMap_append]
    apply Distinct.pair_sublist_collect _ rfl rfl
    · exact mem_flatMap.mpr ⟨a,mem_filter.mpr ⟨in_a,filed⟩,mem_map.mpr ⟨(scope,id),contains_iff_mem.mp filed,rfl⟩⟩
    · have unfiled : files cur known scope id b = false := by
        by_contra also
        have same := only_first b (Bool.not_eq_false _ |>.mp also) (scope',id') (contains_iff_mem.mp filed')
        exact differ same.symm
      exact mem_flatMap.mpr ⟨b,mem_filter.mpr ⟨in_b,by rw [unfiled]; rfl⟩,
        mem_map.mpr ⟨(scope',id'),contains_iff_mem.mp filed',rfl⟩⟩
    · intro early
      obtain ⟨issue,mem,in_keys⟩ := mem_flatMap.mp early
      obtain ⟨filing,in_filings,same⟩ := mem_map.mp in_keys
      have first := only_first issue (mem_filter.mp mem).2 filing in_filings
      exact differ (first.symm.trans (slotKey_inj (first ▸ plain) plain' same).1)
  rw [← map_slotKey_values parsed] at keys
  obtain ⟨pair,inside,same⟩ := sublist_map_iff.mp keys
  obtain ⟨x,rest,rfl,first,same⟩ := map_eq_cons_iff.mp same.symm
  obtain ⟨y,rest,rfl,second,same⟩ := map_eq_cons_iff.mp same
  obtain rfl := map_eq_nil_iff.mp same
  have place : ∀ slot scope id, 0 ∉ scope → slot ∈ [x,y] →
      slotKey slot.scope slot.id = slotKey scope id → slot.place = (scope,id) := by
    intro slot scope id plain mem same
    obtain ⟨keys,full⟩ := (mem_slots parsed).mp (inside.subset mem)
    obtain ⟨key,in_keys⟩ := exists_mem_of_ne_nil _ (keys ▸ full)
    obtain ⟨issue,_,filed,_⟩ := mem_keysOf.mp in_keys
    obtain ⟨scopes,ids⟩ := slotKey_inj (parsed.plain filed) plain same
    exact Prod.ext scopes ids
  have x_place := place x scope id plain (by simp) first
  have y_place := place y scope' id' plain' (by simp) second
  obtain ⟨x_scope,x_id⟩ := Prod.mk.inj x_place
  obtain ⟨y_scope,y_id⟩ := Prod.mk.inj y_place
  have texts : x.scope ++ x.id = y.scope ++ y.id := by rw [x_scope,x_id,y_scope,y_id,joined]
  have level : compareSlots x y = 0 := compareStrings_eq_zero.mpr texts
  have sorted := Comparator.pair_sublist_sort (lawful_compareStrings.mapped _) level.le inside
  have both := (sorted.filter fun slot => keep slot.scope).map Slot.place
  have passed : [x,y].filter (fun slot => keep slot.scope) = [x,y] := by
    simp [x_scope,y_scope,kept,kept']
  rw [passed,map_cons,map_singleton,x_place,y_place] at both
  exact both

theorem places_orderless_iff (plains : ∀ scope ∈ cur, 0 ∉ scope) (known : List Units)
    (keep : Units → Bool) (backlog : List RequirementTracedIssue) :
    (∀ others, others.Perm backlog → places cur known keep (tracedIssues others) =
        places cur known keep (tracedIssues backlog)) ↔
      ¬ Tied cur known keep (tracedIssues backlog) := by
  constructor
  · intro orderless tied
    obtain ⟨a,in_a,b,in_b,scope,id,scope',id',filed,filed',kept,kept',differ,joined⟩ := tied
    have forward := pair_places plains in_a in_b filed filed' kept kept' differ joined
    have back := pair_places plains in_b in_a filed' filed kept' kept differ.symm joined.symm
    rw [orderless _ (front_perm _ backlog)] at forward back
    have apart : (scope,id) ≠ (scope',id') := fun same => differ (Prod.mk.inj same).1
    exact Distinct.not_pair_sublist_swap (nodup_places (parsed_tracedIssues plains backlog)) apart forward back
  · intro untied others same
    exact places_congr plains same untied

end Places

end Keiko.RequirementComparison
