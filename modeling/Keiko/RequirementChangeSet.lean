import Keiko.RequirementReport

/-! The claim of the comparison as a whole: entries are classified, removals are judged on complete
inventories, affected items are all those that trace a change, and the order of the backlog does not
show. It holds just where no item is filed under the first of several documents, no item that traces
a change is up to date, and no keys and no slots are level. -/
namespace Keiko.RequirementComparison
open List
open Library Comparators
open ComparableRequirement (digest documentScope)

section Reports
variable {Entry : Type*} [ComparableRequirement Entry] {entries : List Entry} {scopes incomplete : List Units}
  {backlog others : List RequirementTracedIssue} {xs : List ParsedIssue} {c : RequirementChange Entry}
  {scope id key : Units} {e : Entry} {keep : Units → Bool} {x : ParsedIssue}

def Traces (issue : ParsedIssue) (id scope : Units) : Prop :=
  id ∈ issue.requirements ∧ scope ∈ issue.documents

def States (entries : List Entry) (scope id : Units) : Prop :=
  ∃ entry ∈ entries, documentScope entry = scope ∧ ComparableRequirement.id entry = id

def Unstated (entries : List Entry) (scopes : List Units) (issue : ParsedIssue) (id : Units) : Prop :=
  ∀ scope ∈ issue.documents, scope ∈ scopes → ¬ States entries scope id

def Complete (scopes incomplete : List Units) (issue : ParsedIssue) : Prop :=
  ∀ scope ∈ issue.documents, scope ∈ scopes → scope ∉ incomplete

def reported (status : RequirementChangeStatus) (result : RequirementChanges Entry) : List Entry :=
  (result.items.filter fun item => item.status = status).filterMap RequirementChange.entry

structure Classified (entries : List Entry) (result : RequirementChanges Entry) : Prop where
  each : (reported .changed result ++ reported .untraced result ++ result.unchanged).Perm entries
  changed_untraced : (reported .changed result).Disjoint (reported .untraced result)
  changed_unchanged : (reported .changed result).Disjoint result.unchanged
  untraced_unchanged : (reported .untraced result).Disjoint result.unchanged

def Verified (entries : List Entry) (scopes incomplete : List Units)
    (backlog : List RequirementTracedIssue) (result : RequirementChanges Entry) : Prop :=
  ∀ change ∈ result.items, change.status = .removed → change.issues ≠ [] ∧
    ∀ key ∈ change.issues, ∃ issue ∈ tracedIssues backlog, issue.key = key ∧
      Traces issue change.id change.documentScope ∧ Unstated entries scopes issue change.id ∧
        Complete scopes incomplete issue

/-- Every requirement that an item with a current document traces and these documents do not state
is reported. -/
def Reported (entries : List Entry) (scopes : List Units) (backlog : List RequirementTracedIssue)
    (result : RequirementChanges Entry) : Prop :=
  ∀ issue ∈ tracedIssues backlog, ∀ id ∈ issue.requirements, (∃ scope ∈ issue.documents,
    scope ∈ scopes) → Unstated entries scopes issue id → ∃ change, ((change ∈ result.items ∧ change.status = .removed) ∨
        change ∈ result.unverifiedRemoved) ∧ change.id = id ∧
          change.documentScope ∈ issue.documents ∧ issue.key ∈ change.issues

/-- The affected keys are those of the items that trace a changed or removed requirement. -/
def Affects (backlog : List RequirementTracedIssue) (result : RequirementChanges Entry) : Prop :=
  ∀ key, key ∈ result.affectedIssues ↔ ∃ issue ∈ tracedIssues backlog, issue.key = key ∧
    ∃ change ∈ result.items, change.status ≠ .untraced ∧ Traces issue change.id change.documentScope

def Orderless (entries : List Entry) (scopes incomplete : List Units) (backlog : List RequirementTracedIssue) : Prop :=
  ∀ others, others.Perm backlog → compareRequirementsWithTrace entries scopes others incomplete =
    compareRequirementsWithTrace entries scopes backlog incomplete

structure Answers (entries : List Entry) (scopes incomplete : List Units)
    (backlog : List RequirementTracedIssue) : Prop where
  classified : Classified entries (compareRequirementsWithTrace entries scopes backlog incomplete)
  verified : Verified entries scopes incomplete backlog (compareRequirementsWithTrace entries scopes backlog incomplete)
  reported : Reported entries scopes backlog (compareRequirementsWithTrace entries scopes backlog incomplete)
  affects : Affects backlog (compareRequirementsWithTrace entries scopes backlog incomplete)
  orderless : Orderless entries scopes incomplete backlog

def outdatedFor (entry : Entry) (issue : ParsedIssue) : Bool :=
  (issue.requirements.contains (ComparableRequirement.id entry) && issue.documents.contains (documentScope entry)) &&
      !issue.labels.contains (revisionLabel (digest entry))

/-- An item is filed under the first current document it names, for a requirement that no current
document it names states. -/
def Filed (entries : List Entry) (scopes : List Units) (scope id : Units) (issue : ParsedIssue) :
    Prop :=
  (currentScopes scopes issue).head? = some scope ∧ id ∈ issue.requirements ∧ Unstated entries scopes issue id

/-- An item that is outdated for an entry or filed under a document whose inventory is complete. -/
def Affected (entries : List Entry) (scopes incomplete : List Units) (issue : ParsedIssue) : Prop :=
  (∃ entry ∈ entries, outdatedFor entry issue = true) ∨
    ∃ scope id, Filed entries scopes scope id issue ∧ scope ∉ incomplete

def Involved (entries : List Entry) (scopes incomplete : List Units) (issues : List ParsedIssue)
    (issue : ParsedIssue) : Prop :=
  (∃ entry ∈ entries, Traces issue (ComparableRequirement.id entry) (documentScope entry) ∧
      ∃ other ∈ issues, outdatedFor entry other = true) ∨
    ∃ scope id, Traces issue id scope ∧ scope ∉ incomplete ∧ ∃ other ∈ issues, Filed entries scopes scope id other

structure Settled (entries : List Entry) (scopes incomplete : List Units)
    (issues : List ParsedIssue) : Prop where
  /-- An item filed under a complete document names complete documents only, or another item of its
  key does. -/
  verified : ∀ issue ∈ issues, ∀ scope id, Filed entries scopes scope id issue → scope ∉ incomplete →
    ∃ other ∈ issues, other.key = issue.key ∧ Traces other id scope ∧
      Unstated entries scopes other id ∧ Complete scopes incomplete other
  /-- An item that traces what another one is affected for is affected for something itself. -/
  affected : ∀ issue ∈ issues, Involved entries scopes incomplete issues issue →
    ∃ other ∈ issues, other.key = issue.key ∧ Affected entries scopes incomplete other
  outdatedKeys : ∀ entry ∈ entries, Apart (outdatedFor entry) issues
  filedKeys : ∀ a ∈ issues, ∀ b ∈ issues, ∀ scope id, Filed entries scopes scope id a →
    Filed entries scopes scope id b → compareIssueKeys a.key b.key = 0 → a.key = b.key
  filedPlaces : ∀ a ∈ issues, ∀ b ∈ issues, ∀ scope id scope' id', Filed entries scopes scope id a →
    Filed entries scopes scope' id' b → (scope ∈ incomplete ↔ scope' ∈ incomplete) →
      scope ++ id = scope' ++ id' → scope = scope'

structure PlainScopes (entries : List Entry) (scopes : List Units) : Prop where
  documents : ∀ scope ∈ scopes, 0 ∉ scope
  inventory : ∀ entry ∈ entries, 0 ∉ documentScope entry

def known (entries : List Entry) : List Units :=
  entries.map fun entry => slotKey (documentScope entry) (ComparableRequirement.id entry)

theorem mem_known (plain : PlainScopes entries scopes) (cur : scope ∈ scopes) :
    slotKey scope id ∈ known entries ↔ States entries scope id := by
  rw [known,mem_map]
  constructor
  · intro mem
    obtain ⟨e,inside,same⟩ := mem
    exact ⟨e,inside,slotKey_inj (plain.inventory e inside) (plain.documents scope cur) same⟩
  · intro states
    obtain ⟨e,inside,rfl,rfl⟩ := states
    exact ⟨e,inside,rfl⟩

theorem files_known (plain : PlainScopes entries scopes) :
    files scopes (known entries) scope id x = true ↔ Filed entries scopes scope id x := by
  have unstated : (∀ c ∈ currentScopes scopes x, slotKey c id ∉ known entries) ↔
      Unstated entries scopes x id := by
    constructor
    · intro gone scope named cur
      rw [← mem_known plain cur]
      exact gone scope (mem_currentScopes.mpr ⟨named,cur⟩)
    · intro gone scope both
      obtain ⟨named,cur⟩ := mem_currentScopes.mp both
      rw [mem_known plain cur]
      exact gone scope named cur
  rw [files_iff,unstated,Filed]

theorem stateOf_eq (e : Entry) (xs : List ParsedIssue) : stateOf e xs =
    ⟨xs.any fun x => x.requirements.contains (ComparableRequirement.id e) &&
      x.documents.contains (documentScope e),sortedKeys (keysOf (outdatedFor e) xs)⟩ := by
  unfold stateOf keysOf outdatedFor
  simp only [filter_filter,State.mk.injEq]
  constructor
  · rw [Bool.eq_iff_iff,Bool.not_eq_true',isEmpty_eq_false_iff_exists_mem,any_eq_true]
    simp only [mem_filter]
  · congr 2
    apply filter_congr
    intro x _
    exact Bool.and_comm _ _

theorem traced_iff : (stateOf e xs).traced = true ↔
    ∃ x ∈ xs, Traces x (ComparableRequirement.id e) (documentScope e) := by
  rw [stateOf_eq]
  simp [Traces]

theorem mem_outdated : key ∈ (stateOf e xs).outdated ↔
      ∃ x ∈ xs, outdatedFor e x = true ∧ x.key = key := by
  rw [stateOf_eq]
  simp only [mem_sortedKeys,mem_keysOf]

theorem traces_of_outdatedFor (outdated : outdatedFor e x = true) :
    Traces x (ComparableRequirement.id e) (documentScope e) := by
  rw [outdatedFor,Bool.and_eq_true,Bool.and_eq_true,contains_iff_mem,contains_iff_mem] at outdated
  exact outdated.1

def isChanged (issues : List ParsedIssue) (entry : Entry) : Bool :=
  (stateOf entry issues).traced && !(stateOf entry issues).outdated.isEmpty

theorem changedItem_eq_some : changedItem xs e = some c ↔
      isChanged xs e = true ∧ c = ⟨.changed,ComparableRequirement.id e,
        documentScope e,(stateOf e xs).outdated,some e⟩ := by
  unfold changedItem isChanged
  simp only
  split
  next changed => simp [changed,eq_comm]
  next unchanged => simp [unchanged]

theorem untracedItem_eq_some : untracedItem xs e = some c ↔
      (stateOf e xs).traced = false ∧ c = ⟨.untraced,ComparableRequirement.id e,
        documentScope e,[],some e⟩ := by
  unfold untracedItem
  split
  next traced => simp [traced]
  next untraced => simp [untraced,eq_comm]

theorem isChanged_iff : isChanged xs e = true ↔
    ∃ x ∈ xs, outdatedFor e x = true := by
  rw [isChanged,Bool.and_eq_true,traced_iff,Bool.not_eq_true',isEmpty_eq_false_iff_exists_mem]
  constructor
  · intro changed
    obtain ⟨_,key,outdated⟩ := changed
    obtain ⟨x,mem,outdated,_⟩ := mem_outdated.mp outdated
    exact ⟨x,mem,outdated⟩
  · intro changed
    obtain ⟨x,mem,outdated⟩ := changed
    exact ⟨⟨x,mem,traces_of_outdatedFor outdated⟩,x.key,mem_outdated.mpr ⟨x,mem,outdated,rfl⟩⟩

def missing (entries : List Entry) (scopes : List Units) (keep : Units → Bool)
    (issues : List ParsedIssue) : List (RequirementChange Entry) :=
  (sortedSlots scopes (known entries) keep issues).map removedChange

theorem compare_eq (entries : List Entry) (scopes : List Units)
    (backlog : List RequirementTracedIssue) (incomplete : List Units) :
    compareRequirementsWithTrace entries scopes backlog incomplete =
      let xs := tracedIssues backlog
      let changed := entries.filterMap (changedItem xs)
      let removed := missing entries scopes (fun scope => !incomplete.contains scope) xs
      { items := changed ++ removed ++ entries.filterMap (untracedItem xs)
        unchangedCount := (entries.filter (isUnchanged xs)).length
        unchanged := entries.filter (isUnchanged xs)
        unverifiedRemoved := missing entries scopes incomplete.contains xs
        tracedIssueCount := xs.length
        unmatchedIssueCount := (xs.filter fun x =>
          !x.documents.any fun scope => scopes.contains scope).length
        affectedIssues := sortedKeys ((changed ++ removed).flatMap RequirementChange.issues) } := by
  unfold compareRequirementsWithTrace missingItems missing sortedSlots
  simp only [filter_map]
  rfl

theorem status_changed (mem : c ∈ entries.filterMap (changedItem xs)) : c.status = .changed := by
  obtain ⟨e,_,some⟩ := mem_filterMap.mp mem
  rw [(changedItem_eq_some.mp some).2]

theorem status_untraced
    (mem : c ∈ entries.filterMap (untracedItem xs)) : c.status = .untraced := by
  obtain ⟨e,_,some⟩ := mem_filterMap.mp mem
  rw [(untracedItem_eq_some.mp some).2]

theorem status_missing (mem : c ∈ missing entries scopes keep xs) :
    c.status = .removed := by
  obtain ⟨slot,_,rfl⟩ := mem_map.mp mem
  rfl

theorem filter_status {α σ : Type*} [DecidableEq σ] (status : α → σ) {a b third : List α}
    {one two three : σ} (firsts : ∀ item ∈ a, status item = one)
    (seconds : ∀ item ∈ b, status item = two) (thirds : ∀ item ∈ third, status item = three)
    (wanted : σ) : (a ++ b ++ third).filter (fun item => status item = wanted) =
      (if one = wanted then a else []) ++ (if two = wanted then b else []) ++
        if three = wanted then third else [] := by
  have part : ∀ (xs : List α) (hit : σ), (∀ item ∈ xs, status item = hit) →
      xs.filter (fun item => status item = wanted) = if hit = wanted then xs else [] := by
    intro xs hit all
    split
    next same =>
      apply filter_eq_self.mpr
      intro item mem
      exact decide_eq_true ((all item mem).trans same)
    next differ =>
      apply filter_eq_nil_iff.mpr
      intro item mem
      rw [decide_eq_true_eq,all item mem]
      exact differ
  rw [filter_append,filter_append,part a one firsts,part b two seconds,part third three thirds]

theorem items_of_status (entries : List Entry) (scopes : List Units)
    (backlog : List RequirementTracedIssue) (incomplete : List Units)
    (status : RequirementChangeStatus) :
    (compareRequirementsWithTrace entries scopes backlog incomplete).items.filter (fun item => item.status = status) =
      match status with
      | .changed => entries.filterMap (changedItem (tracedIssues backlog))
      | .removed => missing entries scopes (fun scope => !incomplete.contains scope)
          (tracedIssues backlog)
      | .untraced => entries.filterMap (untracedItem (tracedIssues backlog)) := by
  rw [compare_eq]
  simp only
  rw [filter_status RequirementChange.status (fun _ => status_changed) (fun _ => status_missing)
    fun _ => status_untraced]
  cases status with
  | changed => simp
  | removed => simp
  | untraced => simp

theorem mem_items :
    c ∈ (compareRequirementsWithTrace entries scopes backlog incomplete).items ↔
      c ∈ entries.filterMap (changedItem (tracedIssues backlog)) ∨
        c ∈ missing entries scopes (fun scope => !incomplete.contains scope) (tracedIssues backlog) ∨
        c ∈ entries.filterMap (untracedItem (tracedIssues backlog)) := by
  rw [compare_eq]
  simp only [mem_append,or_assoc]

def slotChange (entries : List Entry) (scopes : List Units) (issues : List ParsedIssue)
    (scope id : Units) : RequirementChange Entry :=
  ⟨.removed,id,scope,sortedKeys (keysOf (files scopes (known entries) scope id) issues),none⟩

theorem mem_slotChange (plain : PlainScopes entries scopes) : key ∈ (slotChange entries scopes xs scope id).issues ↔
      ∃ x ∈ xs, Filed entries scopes scope id x ∧ x.key = key := by
  rw [slotChange,mem_sortedKeys,mem_keysOf]
  simp only [files_known plain]

theorem missing_eq (plain : PlainScopes entries scopes) (keep : Units → Bool) (backlog : List RequirementTracedIssue) :
    missing entries scopes keep (tracedIssues backlog) =
      (places scopes (known entries) keep (tracedIssues backlog)).map fun place =>
        slotChange entries scopes (tracedIssues backlog) place.1 place.2 := by
  rw [missing,places,map_map]
  apply map_congr_left
  intro slot mem
  obtain ⟨_,keys,_⟩ := (mem_sortedSlots (parsed_tracedIssues plain.documents backlog)).mp mem
  rw [removedChange,keys]
  rfl

theorem mem_missing (plain : PlainScopes entries scopes) :
    c ∈ missing entries scopes keep (tracedIssues backlog) ↔
      ∃ scope id, slotChange entries scopes (tracedIssues backlog) scope id = c ∧
        keep scope = true ∧ ∃ x ∈ tracedIssues backlog, Filed entries scopes scope id x := by
  have parsed := parsed_tracedIssues plain.documents backlog
  rw [missing_eq plain,mem_map]
  constructor
  · intro mem
    obtain ⟨⟨scope,id⟩,inside,same⟩ := mem
    obtain ⟨kept,x,in_issues,filed⟩ := (mem_places parsed).mp inside
    exact ⟨scope,id,same,kept,x,in_issues,(files_known plain).mp filed⟩
  · intro mem
    obtain ⟨scope,id,same,kept,x,in_issues,filed⟩ := mem
    exact ⟨(scope,id),(mem_places parsed).mpr ⟨kept,x,in_issues,(files_known plain).mpr filed⟩,same⟩

theorem Filed.traces (filed : Filed entries scopes scope id x) :
    Traces x id scope :=
  ⟨filed.2.1,(mem_currentScopes.mp (mem_of_head? filed.1)).1⟩

section Parts

theorem filterMap_reports {α β : Type*} {test : α → Bool} (make : α → β) (read : β → Option α)
    (back : ∀ item, read (make item) = some item) (xs : List α) :
    (xs.filterMap fun item => if test item = true then some (make item) else none).filterMap read =
      xs.filter test := by
  rw [filterMap_filterMap,← filterMap_eq_filter]
  apply filterMap_congr
  intro item _
  by_cases passed : test item = true
  · simp [Option.guard,passed,back]
  · simp [Option.guard,passed]

theorem reported_changed : reported .changed (compareRequirementsWithTrace entries scopes backlog
    incomplete) = entries.filter (isChanged (tracedIssues backlog)) := by
  rw [reported,items_of_status]
  exact filterMap_reports (fun e => (⟨.changed,ComparableRequirement.id e,
    documentScope e,(stateOf e (tracedIssues backlog)).outdated,some e⟩ :
      RequirementChange Entry)) RequirementChange.entry (fun _ => rfl) entries

theorem reported_untraced : reported .untraced (compareRequirementsWithTrace entries scopes backlog
    incomplete) = entries.filter fun e => !(stateOf e (tracedIssues backlog)).traced := by
  rw [reported,items_of_status,← filterMap_reports (fun e =>
    (⟨.untraced,ComparableRequirement.id e,documentScope e,[],some e⟩ :
      RequirementChange Entry)) RequirementChange.entry (fun _ => rfl) entries]
  apply congrArg (filterMap RequirementChange.entry)
  apply filterMap_congr
  intro e _
  unfold untracedItem
  cases (stateOf e (tracedIssues backlog)).traced with
  | true => rfl
  | false => rfl

theorem classified (entries : List Entry) (scopes : List Units) (backlog : List RequirementTracedIssue)
    (incomplete : List Units) :
    Classified entries (compareRequirementsWithTrace entries scopes backlog incomplete) := by
  have unchanged : (compareRequirementsWithTrace entries scopes backlog incomplete).unchanged =
      entries.filter (isUnchanged (tracedIssues backlog)) := by
    rw [compare_eq]
  have traced := filter_append_perm (fun e => (stateOf e (tracedIssues backlog)).traced) entries
  have changed := filter_append_perm (isChanged (tracedIssues backlog))
    (entries.filter fun e => (stateOf e (tracedIssues backlog)).traced)
  have changed_traced : (fun e : Entry => isChanged (tracedIssues backlog) e &&
      (stateOf e (tracedIssues backlog)).traced) = isChanged (tracedIssues backlog) := by
    funext e
    unfold isChanged
    cases (stateOf e (tracedIssues backlog)).traced with
    | true => rw [Bool.and_true]
    | false => rfl
  have unchanged_traced : (fun e : Entry => (!isChanged (tracedIssues backlog) e) &&
      (stateOf e (tracedIssues backlog)).traced) = isUnchanged (tracedIssues backlog) := by
    funext e
    simp only [isChanged,isUnchanged]
    cases (stateOf e (tracedIssues backlog)).traced with
    | true => rw [Bool.true_and,Bool.not_not,Bool.and_true,Bool.true_and]
    | false => rw [Bool.and_false,Bool.false_and]
  rw [filter_filter,filter_filter,changed_traced,unchanged_traced] at changed
  refine ⟨?_,?_,?_,?_⟩
  · rw [reported_changed,reported_untraced,unchanged,append_assoc]
    refine List.Perm.trans ?_ traced
    refine List.Perm.trans ?_ (changed.append_right _)
    rw [append_assoc]
    exact perm_append_comm.append_left _
  · rw [reported_changed,reported_untraced]
    intro e in_changed in_untraced
    have is_changed := (mem_filter.mp in_changed).2
    have is_untraced := (mem_filter.mp in_untraced).2
    simp_all [isChanged]
  · rw [reported_changed,unchanged]
    intro e in_changed in_unchanged
    have is_changed := (mem_filter.mp in_changed).2
    have is_unchanged := (mem_filter.mp in_unchanged).2
    simp_all [isChanged,isUnchanged]
  · rw [reported_untraced,unchanged]
    intro e in_untraced in_unchanged
    have is_untraced := (mem_filter.mp in_untraced).2
    have is_unchanged := (mem_filter.mp in_unchanged).2
    simp_all [isUnchanged]

theorem mem_removed {c : RequirementChange Entry} :
    (c ∈ (compareRequirementsWithTrace entries scopes backlog incomplete).items ∧
        c.status = .removed) ↔
      c ∈ missing entries scopes (fun scope => !incomplete.contains scope) (tracedIssues backlog) := by
  have filtered := items_of_status entries scopes backlog incomplete .removed
  simp only at filtered
  rw [← filtered,mem_filter,decide_eq_true_eq]

theorem mem_complete {scope : Units} : (!incomplete.contains scope) = true ↔ scope ∉ incomplete := by
  rw [Bool.not_eq_true',← Bool.not_eq_true,contains_iff_mem]

theorem verified_iff (plain : PlainScopes entries scopes) : Verified entries scopes incomplete backlog
        (compareRequirementsWithTrace entries scopes backlog incomplete) ↔
      ∀ x ∈ tracedIssues backlog, ∀ scope id, Filed entries scopes scope id x →
        scope ∉ incomplete → ∃ other ∈ tracedIssues backlog, other.key = x.key ∧
          Traces other id scope ∧ Unstated entries scopes other id ∧ Complete scopes incomplete other := by
  constructor
  · intro verified x mem scope id filed complete
    have removed := mem_removed.mpr ((mem_missing plain).mpr ⟨scope,id,rfl,mem_complete.mpr complete,x,mem,filed⟩)
    exact (verified _ removed.1 removed.2).2 x.key ((mem_slotChange plain).mpr ⟨x,mem,filed,rfl⟩)
  · intro settled c in_items status
    obtain ⟨scope,id,rfl,complete,x,mem,filed⟩ :=
      (mem_missing plain).mp (mem_removed.mp ⟨in_items,status⟩)
    constructor
    · exact ne_nil_of_mem ((mem_slotChange plain).mpr ⟨x,mem,filed,rfl⟩)
    · intro key listed
      obtain ⟨x,mem,filed,rfl⟩ := (mem_slotChange plain).mp listed
      exact settled x mem scope id filed (mem_complete.mp complete)

theorem reports_missing (plain : PlainScopes entries scopes) : Reported entries scopes backlog
      (compareRequirementsWithTrace entries scopes backlog incomplete) := by
  intro x mem id traced cur unstated
  obtain ⟨document,named,cur⟩ := cur
  have some_scope : currentScopes scopes x ≠ [] :=
    ne_nil_of_mem (mem_currentScopes.mpr ⟨named,cur⟩)
  have a := head?_eq_some_head some_scope
  have filed : Filed entries scopes ((currentScopes scopes x).head some_scope) id x :=
    ⟨a,traced,unstated⟩
  refine ⟨slotChange entries scopes (tracedIssues backlog) _ id,?_,rfl,filed.traces.2,
    (mem_slotChange plain).mpr ⟨x,mem,filed,rfl⟩⟩
  by_cases complete : (currentScopes scopes x).head some_scope ∈ incomplete
  · right
    rw [compare_eq]
    exact (mem_missing plain).mpr ⟨_,id,rfl,contains_iff_mem.mpr complete,x,mem,filed⟩
  · left
    exact mem_removed.mpr ((mem_missing plain).mpr ⟨_,id,rfl,mem_complete.mpr complete,x,mem,filed⟩)

theorem mem_changedItems {xs : List ParsedIssue} {c : RequirementChange Entry} :
    c ∈ entries.filterMap (changedItem xs) ↔ ∃ e ∈ entries,
      (∃ x ∈ xs, outdatedFor e x = true) ∧
        c = ⟨.changed,ComparableRequirement.id e,documentScope e,
          (stateOf e xs).outdated,some e⟩ := by
  rw [mem_filterMap]
  simp only [changedItem_eq_some,isChanged_iff]

theorem mem_affectedIssues (plain : PlainScopes entries scopes) {key : Units} :
    key ∈ (compareRequirementsWithTrace entries scopes backlog incomplete).affectedIssues ↔
      ∃ x ∈ tracedIssues backlog, x.key = key ∧ Affected entries scopes incomplete x := by
  rw [compare_eq]
  simp only [mem_sortedKeys,mem_flatMap,mem_append]
  constructor
  · intro mem
    obtain ⟨c,in_changed | in_removed,listed⟩ := mem
    · obtain ⟨e,inside,_,rfl⟩ := mem_changedItems.mp in_changed
      obtain ⟨x,in_issues,outdated,same⟩ := mem_outdated.mp listed
      exact ⟨x,in_issues,same,.inl ⟨e,inside,outdated⟩⟩
    · obtain ⟨scope,id,rfl,complete,_⟩ := (mem_missing plain).mp in_removed
      obtain ⟨x,in_issues,filed,same⟩ := (mem_slotChange plain).mp listed
      exact ⟨x,in_issues,same,.inr ⟨scope,id,filed,mem_complete.mp complete⟩⟩
  · intro mem
    obtain ⟨x,in_issues,same,⟨e,inside,outdated⟩ | ⟨scope,id,filed,complete⟩⟩ := mem
    · exact ⟨_,.inl (mem_changedItems.mpr ⟨e,inside,⟨x,in_issues,outdated⟩,rfl⟩),
        mem_outdated.mpr ⟨x,in_issues,outdated,same⟩⟩
    · exact ⟨_,.inr ((mem_missing plain).mpr ⟨scope,id,rfl,mem_complete.mpr complete,x,in_issues,
        filed⟩),(mem_slotChange plain).mpr ⟨x,in_issues,filed,same⟩⟩

theorem involved_iff (plain : PlainScopes entries scopes) {x : ParsedIssue} :
    Involved entries scopes incomplete (tracedIssues backlog) x ↔
      ∃ c ∈ (compareRequirementsWithTrace entries scopes backlog incomplete).items,
        c.status ≠ .untraced ∧ Traces x c.id c.documentScope := by
  constructor
  · intro involved
    obtain ⟨e,inside,traces,outdated⟩ | ⟨scope,id,traces,complete,other,mem,filed⟩ := involved
    · exact ⟨_,mem_items.mpr (.inl (mem_changedItems.mpr ⟨e,inside,outdated,rfl⟩)),by simp,traces⟩
    · exact ⟨slotChange entries scopes (tracedIssues backlog) scope id,
        mem_items.mpr (.inr (.inl ((mem_missing plain).mpr
          ⟨scope,id,rfl,mem_complete.mpr complete,other,mem,filed⟩))),by simp [slotChange],traces⟩
  · intro changes
    obtain ⟨c,in_items,status,traces⟩ := changes
    obtain in_changed | in_removed | in_untraced := mem_items.mp in_items
    · obtain ⟨e,inside,outdated,rfl⟩ := mem_changedItems.mp in_changed
      exact .inl ⟨e,inside,traces,outdated⟩
    · obtain ⟨scope,id,rfl,complete,filed⟩ := (mem_missing plain).mp in_removed
      exact .inr ⟨scope,id,traces,mem_complete.mp complete,filed⟩
    · exact absurd (status_untraced in_untraced) status

theorem Affected.involved {xs : List ParsedIssue} {x : ParsedIssue} (mem : x ∈ xs)
    (affected : Affected entries scopes incomplete x) :
    Involved entries scopes incomplete xs x := by
  obtain ⟨e,inside,outdated⟩ | ⟨scope,id,filed,complete⟩ := affected
  · exact .inl ⟨e,inside,traces_of_outdatedFor outdated,x,mem,outdated⟩
  · exact .inr ⟨scope,id,filed.traces,complete,x,mem,filed⟩

theorem affects_iff (plain : PlainScopes entries scopes) :
    Affects backlog (compareRequirementsWithTrace entries scopes backlog incomplete) ↔ ∀ x ∈ tracedIssues backlog,
        Involved entries scopes incomplete (tracedIssues backlog) x →
          ∃ other ∈ tracedIssues backlog, other.key = x.key ∧ Affected entries scopes incomplete other := by
  unfold Affects
  simp only [← involved_iff plain,mem_affectedIssues plain]
  constructor
  · intro exact_keys x mem involved
    exact (exact_keys x.key).mpr ⟨x,mem,rfl,involved⟩
  · intro settled key
    constructor
    · intro listed
      obtain ⟨x,mem,same,affected⟩ := listed
      exact ⟨x,mem,same,affected.involved mem⟩
    · intro listed
      obtain ⟨x,mem,rfl,involved⟩ := listed
      exact settled x mem involved

end Parts

section Orders

theorem any_congr (same : others.Perm backlog) (test : ParsedIssue → Bool) :
    (tracedIssues others).any test = (tracedIssues backlog).any test := by
  rw [Bool.eq_iff_iff,any_eq_true,any_eq_true]
  simp only [(tracedIssues_perm same).mem_iff]

theorem stateOf_congr {e : Entry} (same : others.Perm backlog)
    (apart : Apart (outdatedFor e) (tracedIssues backlog)) :
    stateOf e (tracedIssues others) = stateOf e (tracedIssues backlog) := by
  rw [stateOf_eq,stateOf_eq,any_congr same,sortedKeys_perm same apart]

theorem apart_files (plain : PlainScopes entries scopes)
    (settled : Settled entries scopes incomplete (tracedIssues backlog)) (scope id : Units) :
    Apart (files scopes (known entries) scope id) (tracedIssues backlog) := by
  intro a in_a b in_b filed filed'
  exact settled.filedKeys a in_a b in_b scope id ((files_known plain).mp filed) ((files_known plain).mp filed')

theorem missing_congr (plain : PlainScopes entries scopes) (same : others.Perm backlog)
    (settled : Settled entries scopes incomplete (tracedIssues backlog)) (keep : Units → Bool)
    (alike : ∀ scope scope', keep scope = true → keep scope' = true → (scope ∈ incomplete ↔ scope' ∈ incomplete)) :
    missing entries scopes keep (tracedIssues others) = missing entries scopes keep (tracedIssues backlog) := by
  have untied : ¬ Tied scopes (known entries) keep (tracedIssues backlog) := by
    intro tied
    obtain ⟨a,in_a,b,in_b,scope,id,scope',id',filed,filed',kept,kept',differ,joined⟩ := tied
    exact differ (settled.filedPlaces a in_a b in_b scope id scope' id'
      ((files_known plain).mp filed) ((files_known plain).mp filed') (alike scope scope' kept kept')
      joined)
  rw [missing_eq plain,missing_eq plain,places_congr plain.documents same untied]
  apply map_congr_left
  intro place _
  rw [slotChange,slotChange,sortedKeys_perm same (apart_files plain settled place.1 place.2)]

theorem compare_congr (plain : PlainScopes entries scopes) (same : others.Perm backlog)
    (settled : Settled entries scopes incomplete (tracedIssues backlog)) :
    compareRequirementsWithTrace entries scopes others incomplete =
      compareRequirementsWithTrace entries scopes backlog incomplete := by
  have states : ∀ e ∈ entries, stateOf e (tracedIssues others) =
      stateOf e (tracedIssues backlog) := fun e mem =>
    stateOf_congr same (settled.outdatedKeys e mem)
  have changed : entries.filterMap (changedItem (tracedIssues others)) =
      entries.filterMap (changedItem (tracedIssues backlog)) :=
    filterMap_congr fun e mem => by rw [changedItem,changedItem,states e mem]
  have untraced : entries.filterMap (untracedItem (tracedIssues others)) =
      entries.filterMap (untracedItem (tracedIssues backlog)) :=
    filterMap_congr fun e mem => by rw [untracedItem,untracedItem,states e mem]
  have unchanged : entries.filter (isUnchanged (tracedIssues others)) =
      entries.filter (isUnchanged (tracedIssues backlog)) :=
    filter_congr fun e mem => by rw [isUnchanged,isUnchanged,states e mem]
  have removed := missing_congr plain same settled (fun scope => !incomplete.contains scope)
    fun scope scope' complete complete' =>
      iff_of_false (mem_complete.mp complete) (mem_complete.mp complete')
  have unverified := missing_congr plain same settled incomplete.contains fun scope scope' cut cut' =>
      iff_of_true (contains_iff_mem.mp cut) (contains_iff_mem.mp cut')
  have traced := tracedIssues_perm same
  rw [compare_eq,compare_eq]
  simp only [changed,untraced,unchanged,removed,unverified,traced.length_eq,(traced.filter _).length_eq]

theorem missing_of_eq {keep : Units → Bool} (orderless : missing entries scopes keep
      (tracedIssues others) = missing entries scopes keep (tracedIssues backlog))
    (plain : PlainScopes entries scopes) {scope id : Units} (kept : keep scope = true)
    {x : ParsedIssue} (mem : x ∈ tracedIssues others)
    (filed : Filed entries scopes scope id x) :
    sortedKeys (keysOf (files scopes (known entries) scope id) (tracedIssues others)) =
      sortedKeys (keysOf (files scopes (known entries) scope id) (tracedIssues backlog)) := by
  have reported : slotChange entries scopes (tracedIssues others) scope id ∈
      missing entries scopes keep (tracedIssues others) :=
    (mem_missing plain).mpr ⟨scope,id,rfl,kept,x,mem,filed⟩
  rw [orderless] at reported
  obtain ⟨scope',id',same,_⟩ := (mem_missing plain).mp reported
  obtain rfl : scope' = scope := congrArg RequirementChange.documentScope same
  obtain rfl : id' = id := congrArg RequirementChange.id same
  exact (congrArg RequirementChange.issues same).symm

theorem places_of_eq {keep : Units → Bool} (plain : PlainScopes entries scopes)
    (orderless : missing entries scopes keep (tracedIssues others) =
      missing entries scopes keep (tracedIssues backlog)) :
    places scopes (known entries) keep (tracedIssues others) =
      places scopes (known entries) keep (tracedIssues backlog) := by
  have read : ∀ backlog, (missing entries scopes keep (tracedIssues backlog)).map
      (fun c => (c.documentScope,c.id)) = places scopes (known entries) keep (tracedIssues backlog) := by
    intro backlog
    rw [missing_eq plain,map_map]
    exact map_id _
  rw [← read others,orderless,read backlog]

theorem Orderless.missing (orderless : Orderless entries scopes incomplete backlog)
    {complete : Bool} (others : List RequirementTracedIssue) (same : others.Perm backlog) :
    missing entries scopes (fun scope => incomplete.contains scope != complete) (tracedIssues others) =
      RequirementComparison.missing entries scopes (fun scope => incomplete.contains scope != complete)
        (tracedIssues backlog) := by
  have results := orderless others same
  cases complete with
  | true =>
    have filtered := items_of_status entries scopes others incomplete .removed
    rw [results,items_of_status] at filtered
    simp only [Bool.bne_true]
    exact filtered.symm
  | false =>
    have unverified := congrArg RequirementChanges.unverifiedRemoved results
    rw [compare_eq,compare_eq] at unverified
    simp only [Bool.bne_false]
    exact unverified

theorem Orderless.outdatedKeys (orderless : Orderless entries scopes incomplete backlog)
    {e : Entry} (inside : e ∈ entries) :
    Apart (outdatedFor e) (tracedIssues backlog) := by
  rw [← sortedKeys_orderless_iff]
  intro others same
  by_cases some_outdated : ∃ x ∈ tracedIssues others, outdatedFor e x = true
  · have changed : (⟨.changed,ComparableRequirement.id e,documentScope e,
        (stateOf e (tracedIssues others)).outdated,some e⟩ : RequirementChange Entry) ∈
          entries.filterMap (changedItem (tracedIssues others)) :=
      mem_changedItems.mpr ⟨e,inside,some_outdated,rfl⟩
    have filtered := items_of_status entries scopes others incomplete .changed
    rw [orderless others same,items_of_status] at filtered
    simp only at filtered
    rw [← filtered] at changed
    obtain ⟨entry',_,_,equal⟩ := mem_changedItems.mp changed
    obtain rfl : e = entry' := Option.some.inj (congrArg RequirementChange.entry equal)
    have outdated := congrArg RequirementChange.issues equal
    rw [stateOf_eq,stateOf_eq] at outdated
    exact outdated
  · have none_outdated : ∀ backlog', backlog'.Perm others →
        keysOf (outdatedFor e) (tracedIssues backlog') = [] := by
      intro backlog' perm
      apply eq_nil_iff_forall_not_mem.mpr
      intro key listed
      obtain ⟨x,mem,outdated,_⟩ := mem_keysOf.mp listed
      exact some_outdated ⟨x,(tracedIssues_perm perm).mem_iff.mp mem,outdated⟩
    rw [none_outdated others (List.Perm.refl others),none_outdated backlog same.symm]

theorem Orderless.filedKeys (plain : PlainScopes entries scopes)
    (orderless : Orderless entries scopes incomplete backlog) (scope id : Units) :
    Apart (files scopes (known entries) scope id) (tracedIssues backlog) := by
  rw [← sortedKeys_orderless_iff]
  intro others same
  by_cases some_filed : ∃ x ∈ tracedIssues others, Filed entries scopes scope id x
  · obtain ⟨x,mem,filed⟩ := some_filed
    have kept : (incomplete.contains scope != !incomplete.contains scope) = true := by
      cases incomplete.contains scope with
      | true => rfl
      | false => rfl
    exact missing_of_eq (orderless.missing others same) plain kept mem filed
  · have none_filed : ∀ backlog', backlog'.Perm others →
        keysOf (files scopes (known entries) scope id) (tracedIssues backlog') = [] := by
      intro backlog' perm
      apply eq_nil_iff_forall_not_mem.mpr
      intro key listed
      obtain ⟨x,mem,filed,_⟩ := mem_keysOf.mp listed
      exact some_filed ⟨x,(tracedIssues_perm perm).mem_iff.mp mem,(files_known plain).mp filed⟩
    rw [none_filed others (List.Perm.refl others),none_filed backlog same.symm]

theorem Orderless.filedPlaces (plain : PlainScopes entries scopes)
    (orderless : Orderless entries scopes incomplete backlog) {a b : ParsedIssue}
    (in_a : a ∈ tracedIssues backlog) (in_b : b ∈ tracedIssues backlog) {scope id scope' id' : Units}
    (filed : Filed entries scopes scope id a) (filed' : Filed entries scopes scope' id' b)
    (alike : scope ∈ incomplete ↔ scope' ∈ incomplete) (joined : scope ++ id = scope' ++ id') :
    scope = scope' := by
  have same_class : incomplete.contains scope' = incomplete.contains scope := by
    rw [Bool.eq_iff_iff,contains_iff_mem,contains_iff_mem,alike]
  have kept : (incomplete.contains scope != !incomplete.contains scope) = true := by
    cases incomplete.contains scope with
    | true => rfl
    | false => rfl
  have untied := (places_orderless_iff plain.documents (known entries)
    (fun document => incomplete.contains document != !incomplete.contains scope) backlog).mp
      fun others same => places_of_eq plain (orderless.missing others same)
  by_contra differ
  exact untied ⟨a,in_a,b,in_b,scope,id,scope',id',(files_known plain).mpr filed,
    (files_known plain).mpr filed',kept,same_class ▸ kept,differ,joined⟩

end Orders

/-- The comparison answers as it is to just on settled inputs. -/
theorem answers_iff (plain : PlainScopes entries scopes) (incomplete : List Units)
    (backlog : List RequirementTracedIssue) :
    Answers entries scopes incomplete backlog ↔
      Settled entries scopes incomplete (tracedIssues backlog) := by
  constructor
  · intro answers
    refine ⟨(verified_iff plain).mp answers.verified,(affects_iff plain).mp answers.affects,
      fun entry inside => answers.orderless.outdatedKeys inside,?_,?_⟩
    · intro a in_a b in_b scope id filed filed'
      exact answers.orderless.filedKeys plain scope id a in_a b in_b ((files_known plain).mpr filed)
        ((files_known plain).mpr filed')
    · intro a in_a b in_b scope id scope' id' filed filed' alike joined
      exact answers.orderless.filedPlaces plain in_a in_b filed filed' alike joined
  · intro settled
    exact ⟨classified entries scopes backlog incomplete,(verified_iff plain).mpr settled.verified,
      reports_missing plain,(affects_iff plain).mpr settled.affected,
      fun others same => compare_congr plain same settled⟩

end Reports

section Inputs

structure InventoryEntry where
  id : Units
  digest : Units
  documentScope : Units

instance : ComparableRequirement InventoryEntry :=
  ⟨InventoryEntry.id,InventoryEntry.digest,InventoryEntry.documentScope⟩

/-- One item of one complete document, with an old revision of its requirement. -/
theorem answers_one_item : Answers [(⟨units "LH-1",units "b2",units "aaaaaaaa"⟩ : InventoryEntry)]
    [units "aaaaaaaa"] [] [⟨units "REQ-1",[units "keiko-doc-aaaaaaaa",units "keiko-req-LH-1",
      units "keiko-rev-b1"]⟩] := by
  have plain : PlainScopes [(⟨units "LH-1",units "b2",units "aaaaaaaa"⟩ : InventoryEntry)]
      [units "aaaaaaaa"] := ⟨by decide,by decide⟩
  refine (answers_iff plain [] _).mpr ⟨?_,?_,?_,?_,?_⟩
  · intro issue member scope id filed _
    exact ⟨issue,member,rfl,filed.traces,filed.2.2,fun _ _ _ => not_mem_nil⟩
  · intro issue member _
    obtain rfl := mem_singleton.mp member
    exact ⟨_,member,rfl,.inl ⟨_,mem_singleton_self _,by decide +kernel⟩⟩
  · intro entry _ a in_a b in_b _ _ _
    rw [mem_singleton.mp in_a,mem_singleton.mp in_b]
  · intro a in_a b in_b _ _ _ _ _
    rw [mem_singleton.mp in_a,mem_singleton.mp in_b]
  · intro a in_a b in_b scope id scope' id' filed filed' _ _
    rw [mem_singleton.mp in_a] at filed
    rw [mem_singleton.mp in_b] at filed'
    exact Option.some.inj (filed.1.symm.trans filed'.1)

/-- An item of two documents that state nothing, the second one's inventory cut by a bound. -/
theorem removes_under_first_document : ¬ Answers ([] : List InventoryEntry)
    [units "aaaaaaaa",units "bbbbbbbb"] [units "bbbbbbbb"] [⟨units "REQ-1",
      [units "keiko-doc-aaaaaaaa",units "keiko-doc-bbbbbbbb",units "keiko-req-LH-1"]⟩] := by
  intro answers
  have plain : PlainScopes ([] : List InventoryEntry) [units "aaaaaaaa",units "bbbbbbbb"] :=
    ⟨by decide,by simp⟩
  have filed : Filed ([] : List InventoryEntry) [units "aaaaaaaa",units "bbbbbbbb"]
      (units "aaaaaaaa") (units "LH-1") (parse ⟨units "REQ-1",[units "keiko-doc-aaaaaaaa",
        units "keiko-doc-bbbbbbbb",units "keiko-req-LH-1"]⟩) :=
    ⟨by decide +kernel,by decide +kernel,fun _ _ _ states => by simp [States] at states⟩
  obtain ⟨other,member,_,_,_,complete⟩ := (verified_iff plain).mp answers.verified _
    (mem_singleton_self _) _ _ filed (by decide +kernel)
  obtain rfl := mem_singleton.mp member
  exact complete (units "bbbbbbbb") (by decide +kernel) (by decide) (by decide)

end Inputs

end Keiko.RequirementComparison
