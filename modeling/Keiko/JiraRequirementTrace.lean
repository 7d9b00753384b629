import Keiko.Library.Distinct
import Keiko.Library.Json

/-! The labels of a requirement trace, merged into the label edit of the caller. A replacement set
carries the trace; add and remove updates are completed by it. -/
namespace Keiko.JiraRequirementTrace
open Keiko.Library List Json

structure JiraFieldMetadata where
  id : Text
  operations : List Text

structure JiraTraceOutcome where
  labelsApplied : Bool
  footerApplied : Bool
  droppedLabels : List Text

structure JiraTraceRequest where
  labels : List Text
  replaceLabelPrefixes : List Text

inductive LabelOperation where
  | add
  | remove
  deriving DecidableEq

def LabelOperation.text : LabelOperation → Text
  | .add => "add".toList
  | .remove => "remove".toList

structure LabelChange where
  operation : LabelOperation
  value : Text

structure LabelPlan where
  fields : Json.Fields
  updates : List Json
  applied : Bool

section Plan

variable (metadata : List JiraFieldMetadata) (trace : JiraTraceRequest)

def jiraMetadataMaxUpdates : ℕ := 50

def settable (id operation : Text) : Bool :=
  metadata.any fun field => field.id = id && field.operations.contains operation

def isStale (label : Text) : Bool :=
  !trace.labels.contains label && trace.replaceLabelPrefixes.any (·.isPrefixOf label)

def stringLabels (value : Option Json) : Option (List Text) := do
  let items ← Json.items? value
  items.mapM fun item => Json.text? (some item)

def labelChange : Json → Option LabelChange
  | .object raw =>
    if Json.text? (Json.field raw "fieldId".toList) = some "labels".toList then
      match Json.text? (Json.field raw "operation".toList),Json.text? (Json.field raw "value".toList) with
      | some operation,some value =>
        if operation = LabelOperation.add.text then some ⟨.add,value⟩
        else if operation = LabelOperation.remove.text then some ⟨.remove,value⟩
        else none
      | _,_ => none
    else none
  | _ => none

def labelUpdate (change : LabelChange) : Json :=
  .object [("fieldId".toList,.string "labels".toList),("operation".toList,.string change.operation.text),
    ("value".toList,.string change.value)]

/-- The caller's own label update is dropped when the trace owns that label's final state. -/
def ownsLabel (update : Json) : Bool :=
  match labelChange update with
  | none => false
  | some ⟨.remove,value⟩ => trace.labels.contains value
  | some ⟨.add,value⟩ => isStale trace value

def afterUpdate (labels : List Text) (update : Json) : List Text :=
  match labelChange update with
  | none => labels
  | some ⟨.add,value⟩ => Distinct.add (fun _ => true) labels value
  | some ⟨.remove,value⟩ => labels.filter (· ≠ value)

def labelsAfter (current : List Text) (updates : List Json) : List Text :=
  updates.foldl afterUpdate (Distinct.collect (fun _ => true) [] current)

def setField (fields : Json.Fields) (name : Text) (value : Json) : Json.Fields :=
  fields.map fun entry => if entry.1 = name then (name,value) else entry

def mergeIntoSet (fields : Json.Fields) : Json.Fields × Bool :=
  match stringLabels (Json.field fields "labels".toList) with
  | none => (fields,false)
  | some given =>
    if settable metadata "labels".toList "set".toList then
      let kept := given.filter fun label => !isStale trace label
      let labels := kept ++ trace.labels.filter fun label => !kept.contains label
      (setField fields "labels".toList (.array (labels.map .string)),true)
    else (fields,false)

def mergeIntoUpdates (current : List Text) (own : List Json) : List Json × Bool :=
  let canAdd := settable metadata "labels".toList "add".toList
  let canRemove := settable metadata "labels".toList "remove".toList
  let kept := own.filter fun update => !ownsLabel trace update
  let after := labelsAfter current kept
  let stale := after.filter (isStale trace)
  let add := trace.labels.filter fun label => !after.contains label
  let updates := kept ++ ((if canRemove then stale else []).map fun value => labelUpdate ⟨.remove,value⟩) ++
    ((if canAdd then add else []).map fun value => labelUpdate ⟨.add,value⟩)
  let fits := decide (updates.length ≤ jiraMetadataMaxUpdates)
  (if fits then updates else own,fits && (add.isEmpty || canAdd) && (stale.isEmpty || canRemove))

/-- `asRecord(args.fields ?? {}) ?? {}`. -/
def fieldsOf (args : Json.Fields) : Json.Fields :=
  match Json.field args "fields".toList with
  | some (.object fields) => fields
  | _ => []

/-- `asArray(args.updates ?? []) ?? []`. -/
def updatesOf (args : Json.Fields) : List Json := (Json.items? (Json.field args "updates".toList)).getD []

def planLabels (args prior : Json.Fields) : LabelPlan :=
  let fields := fieldsOf args
  let own := updatesOf args
  if (Json.field fields "labels".toList).isSome then
    let (fields,applied) := mergeIntoSet metadata trace fields
    ⟨fields,own,applied⟩
  else
    match stringLabels (Json.field prior "labels".toList) with
    | none => ⟨fields,own,false⟩
    | some current =>
      let (updates,applied) := mergeIntoUpdates metadata trace current own
      ⟨fields,updates,applied⟩

def outcome (plan : LabelPlan) (footerApplied : Bool) : JiraTraceOutcome :=
  ⟨plan.applied,footerApplied,if plan.applied then [] else trace.labels⟩

end Plan

section Execution

variable {trace : JiraTraceRequest} {metadata : List JiraFieldMetadata} {current : List Text} {label : Text}
  {updates : List Json} {labels : List Text} {here : Prop} {fs : Json.Fields}

/-- The labels of an issue behind an edit: a replacement set takes their place, and updates are made
one after another. -/
def executed (current : List Text) (fields : Json.Fields) (updates : List Json) : List Text :=
  labelsAfter ((stringLabels (Json.field fields "labels".toList)).getD current) updates

/-- An edit sets the labels or updates them, which is what the validation of an edit lets pass. -/
def OneWay (fields : Json.Fields) (updates : List Json) : Prop :=
  (Json.field fields "labels".toList).isSome → ∀ update ∈ updates, labelChange update = none

def stands (label : Text) (present : Prop) (update : Json) : Prop :=
  match labelChange update with
  | none => present
  | some ⟨.add,value⟩ => present ∨ label = value
  | some ⟨.remove,value⟩ => present ∧ label ≠ value

theorem mem_afterUpdate {update : Json} :
    label ∈ afterUpdate labels update ↔ stands label (label ∈ labels) update := by
  unfold afterUpdate stands
  split
  · rfl
  · simp
  · simp

theorem mem_foldl_afterUpdate (updates : List Json) :
    label ∈ updates.foldl afterUpdate labels ↔ updates.foldl (stands label) (label ∈ labels) := by
  induction updates generalizing labels with
  | nil => rfl
  | cons update updates ih =>
    rw [foldl_cons,foldl_cons,ih,propext mem_afterUpdate]

theorem mem_labelsAfter :
    label ∈ labelsAfter current updates ↔ updates.foldl (stands label) (label ∈ current) := by
  have start : label ∈ Distinct.collect (fun _ => true) [] current ↔ label ∈ current := by simp
  rw [labelsAfter,mem_foldl_afterUpdate,propext start]

@[simp] theorem labelChange_labelUpdate (c : LabelChange) : labelChange (labelUpdate c) = some c := by
  obtain ⟨operation,v⟩ := c
  cases operation <;> rfl

theorem foldl_stands_removals {removed : List Text} :
    (removed.map fun v => labelUpdate ⟨.remove,v⟩).foldl (stands label) here ↔
      here ∧ label ∉ removed := by
  induction removed generalizing here with
  | nil => simp
  | cons v removed ih =>
    rw [map_cons,foldl_cons,ih]
    simp only [stands,labelChange_labelUpdate,mem_cons,not_or,and_assoc,ne_eq]

theorem foldl_stands_additions {added : List Text} :
    (added.map fun v => labelUpdate ⟨.add,v⟩).foldl (stands label) here ↔ here ∨ label ∈ added := by
  induction added generalizing here with
  | nil => simp
  | cons v added ih =>
    rw [map_cons,foldl_cons,ih]
    simp only [stands,labelChange_labelUpdate,mem_cons,or_assoc]

theorem foldl_stands_kept (foreign : label ∉ trace.labels) (fresh : isStale trace label = false)
    (updates : List Json) :
    (updates.filter fun update => !ownsLabel trace update).foldl (stands label) here ↔
      updates.foldl (stands label) here := by
  induction updates generalizing here with
  | nil => rfl
  | cons update updates ih =>
    cases owned : ownsLabel trace update with
    | false => rw [filter_cons_of_pos (by simp [owned]),foldl_cons,foldl_cons,ih]
    | true =>
      have same : stands label here update ↔ here := by
        unfold ownsLabel at owned
        unfold stands
        split at owned
        · cases owned
        next v hit =>
          have differ : label ≠ v := fun same => foreign (by simpa [same] using owned)
          simp [hit,differ]
        next v hit =>
          have differ : label ≠ v := by
            rintro rfl
            rw [fresh] at owned
            cases owned
          simp [hit,differ]
      rw [filter_cons_of_neg (by simp [owned]),foldl_cons,ih,propext same]

theorem not_stale_of_mem (mem : label ∈ trace.labels) : isStale trace label = false := by
  simp [isStale,mem]

theorem mem_mergeIntoUpdates {own : List Json} (applied : (mergeIntoUpdates metadata trace current own).2 = true) :
    label ∈ labelsAfter current (mergeIntoUpdates metadata trace current own).1 ↔
      label ∈ labelsAfter current own ∧ isStale trace label = false ∨ label ∈ trace.labels := by
  unfold mergeIntoUpdates at applied ⊢
  simp only at applied ⊢
  generalize canAdd : settable metadata "labels".toList "add".toList = mayAdd at *
  generalize canRemove : settable metadata "labels".toList "remove".toList = mayRemove at *
  generalize kept : (own.filter fun update => !ownsLabel trace update) = left at *
  simp only [Bool.and_eq_true,Bool.or_eq_true,List.isEmpty_iff] at applied
  obtain ⟨⟨fits,addable⟩,removable⟩ := applied
  have additions : (if mayAdd then trace.labels.filter fun label => !(labelsAfter current left).contains label
      else []) = trace.labels.filter fun label => !(labelsAfter current left).contains label := by
    rcases addable with nothing | may
    · rw [nothing,ite_self]
    · rw [if_pos may]
  have removals : (if mayRemove then (labelsAfter current left).filter (isStale trace) else []) =
      (labelsAfter current left).filter (isStale trace) := by
    rcases removable with nothing | may
    · rw [nothing,ite_self]
    · rw [if_pos may]
  rw [if_pos fits,additions,removals,mem_labelsAfter,foldl_append,foldl_append,
    foldl_stands_additions,foldl_stands_removals,← mem_labelsAfter,mem_filter,mem_filter]
  by_cases traced : label ∈ trace.labels
  · by_cases here : label ∈ labelsAfter current left
    · simp [traced,here,not_stale_of_mem traced]
    · simp [traced,here]
  · cases stale : isStale trace label with
    | true => simp [traced]
    | false =>
      have same : label ∈ labelsAfter current left ↔ label ∈ labelsAfter current own := by
        rw [mem_labelsAfter,mem_labelsAfter,← kept,foldl_stands_kept traced stale]
      simp [traced,same]

theorem stringLabels_strings (labels : List Text) :
    stringLabels (some (.array (labels.map .string))) = some labels := by
  change (labels.map string).mapM (fun item => text? (some item)) = some labels
  induction labels with
  | nil => rfl
  | cons label labels ih =>
    rw [map_cons,mapM_cons,ih]
    rfl

theorem field_setField {name : Text} (v : Json)
    (here : (Json.field fs name).isSome) : Json.field (setField fs name v) name = some v := by
  induction fs with
  | nil => cases here
  | cons e fs ih =>
    rw [setField,map_cons]
    by_cases own : e.1 = name
    · simp [field,own]
    · have post : (field fs name).isSome := by
        simpa [field,own] using here
      rw [if_neg own,← ih post]
      simp [field,own,setField]

theorem labelsAfter_unchanged (none_changes : ∀ update ∈ updates, labelChange update = none) :
    label ∈ labelsAfter current updates ↔ label ∈ current := by
  rw [mem_labelsAfter]
  induction updates with
  | nil => rfl
  | cons update updates ih =>
    obtain ⟨here,rest⟩ := forall_mem_cons.mp none_changes
    have same : stands label (label ∈ current) update = (label ∈ current) := by
      rw [stands,here]
    rw [foldl_cons,same]
    exact ih rest

theorem mem_mergeIntoSet
    (oneWay : ∀ update ∈ updates, labelChange update = none) (here : (Json.field fs "labels".toList).isSome)
    (applied : (mergeIntoSet metadata trace fs).2 = true) :
    label ∈ executed current (mergeIntoSet metadata trace fs).1 updates ↔
      label ∈ executed current fs updates ∧ isStale trace label = false ∨ label ∈ trace.labels := by
  rw [executed,executed,labelsAfter_unchanged oneWay,labelsAfter_unchanged oneWay]
  unfold mergeIntoSet at applied ⊢
  cases found : stringLabels (field fs "labels".toList) with
  | none =>
    rw [found] at applied
    cases applied
  | some given =>
    rw [found] at applied
    simp only at applied ⊢
    split at applied
    next may =>
      rw [if_pos may,field_setField _ here,stringLabels_strings,Option.getD_some,Option.getD_some]
      by_cases traced : label ∈ trace.labels
      · simp [traced,not_stale_of_mem traced]
        tauto
      · simp [traced]
    next => cases applied

/-- Where the plan says that the labels are applied, the planned edit leaves what the caller's own
edit leaves, without stale labels, and all labels of the trace. -/
theorem planLabels_merges (metadata : List JiraFieldMetadata) (trace : JiraTraceRequest)
    (args prior : Json.Fields) (current : List Text)
    (read : ∀ labels, stringLabels (Json.field prior "labels".toList) = some labels → labels = current)
    (oneWay : OneWay (fieldsOf args) (updatesOf args)) (footerApplied : Bool) :
    let plan := planLabels metadata trace args prior
    (plan.applied = true → ∀ label, label ∈ executed current plan.fields plan.updates ↔
      label ∈ executed current (fieldsOf args) (updatesOf args) ∧ isStale trace label = false ∨
        label ∈ trace.labels) ∧
    (plan.applied = false → (outcome trace plan footerApplied).labelsApplied = false ∧
      (outcome trace plan footerApplied).droppedLabels = trace.labels) := by
  intro plan
  refine ⟨?_,?_⟩
  · intro applied label
    change (planLabels metadata trace args prior).applied = true at applied
    change label ∈ executed current (planLabels metadata trace args prior).fields
      (planLabels metadata trace args prior).updates ↔ _
    unfold planLabels at applied ⊢
    simp only at applied ⊢
    split at applied
    next given =>
      rw [if_pos given]
      exact mem_mergeIntoSet (oneWay given) given applied
    next unset =>
      rw [if_neg unset]
      cases found : stringLabels (field prior "labels".toList) with
      | none =>
        rw [found] at applied
        cases applied
      | some labels =>
        rw [found] at applied
        obtain rfl := read labels found
        have absent : field (fieldsOf args) "labels".toList = none := by simpa using unset
        simp only [executed,absent]
        exact mem_mergeIntoUpdates applied
  · intro refused
    rw [outcome,refused]
    exact ⟨rfl,rfl⟩

/-- An update of another label beside a trace, on an issue with a label of an older revision. -/
theorem planLabels_merges_revision :
    let metadata := [⟨"labels".toList,["add".toList,"remove".toList]⟩]
    let trace := ⟨["keiko-rev-b".toList],["keiko-rev-".toList]⟩
    let args := [("updates".toList,array [labelUpdate ⟨.add,"x".toList⟩])]
    let prior := [("labels".toList,array [.string "keiko-rev-a".toList])]
    (planLabels metadata trace args prior).applied = true ∧
      ∀ label, label ∈ executed ["keiko-rev-a".toList] (planLabels metadata trace args prior).fields
        (planLabels metadata trace args prior).updates ↔ label ∈ executed ["keiko-rev-a".toList]
          (fieldsOf args) (updatesOf args) ∧ isStale trace label = false ∨ label ∈ trace.labels := by
  intro metadata trace args prior
  have applied : (planLabels metadata trace args prior).applied = true := by decide
  refine ⟨applied,(planLabels_merges metadata trace args prior _ ?_ ?_ false).1 applied⟩
  · intro labels found
    exact Option.some.inj (found.symm.trans (stringLabels_strings ["keiko-rev-a".toList]))
  · intro set
    cases set

end Execution

end Keiko.JiraRequirementTrace
