import Keiko.SupportReportJson
import Mathlib.Data.List.Sort

/-! What the writer of support reports does to a value. It succeeds on the values of a bounded
shape with safe texts whose cost stays within the budget, and then gives back the same value
with its keys in order; doing it again changes nothing. -/
namespace Keiko.SupportReport
open Keiko.Library List Json

section Budget

namespace JsonShapeBudget

@[ext] theorem ext_fields {left right : JsonShapeBudget} (values : left.values = right.values)
    (containers : left.containers = right.containers) : left = right := by
  cases left
  cases right
  simp_all

def plus (left right : JsonShapeBudget) : JsonShapeBudget :=
  ⟨left.values + right.values,left.containers + right.containers⟩

def one (container : Bool) : JsonShapeBudget := ⟨1,if container then 1 else 0⟩

structure Within (budget : JsonShapeBudget) : Prop where
  values : budget.values ≤ maxSupportReportValues
  containers : budget.containers ≤ maxSupportReportContainers

@[simp] theorem plus_zero (n : JsonShapeBudget) : n.plus ⟨0,0⟩ = n := rfl

theorem plus_assoc (a b c : JsonShapeBudget) : (a.plus b).plus c = a.plus (b.plus c) := by
  ext
  · exact add_assoc _ _ _
  · exact add_assoc _ _ _

theorem Within.left {a b : JsonShapeBudget} (within : (a.plus b).Within) : a.Within :=
  ⟨le_trans (Nat.le_add_right _ _) within.values,le_trans (Nat.le_add_right _ _) within.containers⟩

end JsonShapeBudget

theorem charge_eq_ok {n res : JsonShapeBudget} {container : Bool} : charge n container = .ok res ↔
      (n.plus (.one container)).Within ∧ res = n.plus (.one container) := by
  have charged : charge n container = if maxSupportReportValues < (n.plus (.one container)).values then
        .error .reportBudgetExceeded
      else if maxSupportReportContainers < (n.plus (.one container)).containers then .error .reportBudgetExceeded
      else .ok (n.plus (.one container)) := by
    cases container <;> rfl
  rw [charged]
  constructor
  · intro hit
    split at hit
    · contradiction
    split at hit
    · contradiction
    next values containers =>
    exact ⟨⟨Nat.le_of_not_lt values,Nat.le_of_not_lt containers⟩,(Except.ok.inj hit).symm⟩
  · intro accepted
    obtain ⟨within,rfl⟩ := accepted
    rw [if_neg (Nat.not_lt.mpr within.values),if_neg (Nat.not_lt.mpr within.containers)]

end Budget

section Spec

open JsonShapeBudget

mutual

def cost : Json → JsonShapeBudget
  | .array items => (one true).plus (itemsCost items)
  | .object fields => (one true).plus (fieldsCost fields)
  | _ => one false

def itemsCost : List Json → JsonShapeBudget
  | [] => ⟨0,0⟩
  | item :: items => (cost item).plus (itemsCost items)

def fieldsCost : List (Text × Json) → JsonShapeBudget
  | [] => ⟨0,0⟩
  | field :: fields => (one false).plus ((cost field.2).plus (fieldsCost fields))

end

mutual

def Shaped (depth : Nat) : Json → Prop
  | .array items => depth < maxSupportReportDepth ∧ items.length ≤ maxSupportReportRecords ∧
    ShapedItems (depth + 1) items
  | .object fields => depth < maxSupportReportDepth ∧ fields.length ≤ maxSupportReportObjectKeys ∧
    ShapedFields (depth + 1) fields
  | _ => True

def ShapedItems (depth : Nat) : List Json → Prop
  | [] => True
  | item :: items => Shaped depth item ∧ ShapedItems depth items

def ShapedFields (depth : Nat) : List (Text × Json) → Prop
  | [] => True
  | field :: fields => Shaped depth field.2 ∧ ShapedFields depth fields

end

structure SafeText (text : Text) : Prop where
  printable : text.all isPrintable = true
  bounded : Text.utf16Length text ≤ maxSupportReportBytes

mutual

def Safe : Json → Prop
  | .string text => SafeText text
  | .number value => value.isFinite = true
  | .array items => SafeItems items
  | .object fields => SafeFields fields
  | _ => True

def SafeItems : List Json → Prop
  | [] => True
  | item :: items => Safe item ∧ SafeItems items

def SafeFields : List (Text × Json) → Prop
  | [] => True
  | field :: fields => (SafeText field.1 ∧ Safe field.2) ∧ SafeFields fields

end

mutual

def canonical : Json → Json
  | .array items => .array (canonicalList items)
  | .object fields => Json.objectOf (sortedByKey (canonicalPairs fields))
  | value => value

def canonicalList : List Json → List Json
  | [] => []
  | item :: items => canonical item :: canonicalList items

def canonicalPairs : List (Text × Json) → List (Text × Json)
  | [] => []
  | field :: fields => (field.1,canonical field.2) :: canonicalPairs fields

end

theorem safeString_eq_ok {v res : Text} : safeString v = .ok res ↔ SafeText v ∧ res = v := by
  unfold safeString
  constructor
  · intro hit
    split at hit
    · contradiction
    split at hit
    · contradiction
    next printable bounded =>
    exact ⟨⟨by simpa using printable,Nat.le_of_not_lt bounded⟩,(Except.ok.inj hit).symm⟩
  · intro accepted
    obtain ⟨safe,rfl⟩ := accepted
    rw [if_neg (by simp [safe.printable]),if_neg (Nat.not_lt.mpr safe.bounded)]

theorem canonicalList_eq (xs : List Json) : canonicalList xs = xs.map canonical := by
  induction xs with
  | nil => rfl
  | cons item xs ih => rw [canonicalList,ih,map_cons]

theorem canonicalPairs_eq (fs : List (Text × Json)) :
    canonicalPairs fs = fs.map fun field => (field.1,canonical field.2) := by
  induction fs with
  | nil => rfl
  | cons field fs ih => rw [canonicalPairs,ih,map_cons]

theorem shapedFields_iff {depth : Nat} {fs : List (Text × Json)} :
    ShapedFields depth fs ↔ ∀ field ∈ fs, Shaped depth field.2 := by
  induction fs with
  | nil => simp [ShapedFields]
  | cons field fs ih =>
    rw [ShapedFields,ih]
    simp

theorem safeFields_iff {fs : List (Text × Json)} :
    SafeFields fs ↔ ∀ field ∈ fs, SafeText field.1 ∧ Safe field.2 := by
  induction fs with
  | nil => simp [SafeFields]
  | cons field fs ih =>
    rw [SafeFields,ih]
    simp

theorem fieldsCost_perm {fs fields' : List (Text × Json)} (perm : fs.Perm fields') :
    fieldsCost fs = fieldsCost fields' := by
  induction perm with
  | nil => rfl
  | cons field _ ih => rw [fieldsCost,fieldsCost,ih]
  | swap a b fs =>
    simp only [fieldsCost]
    ext
    · simp only [plus]
      omega
    · simp only [plus]
      omega
  | trans _ _ a b => exact a.trans b

end Spec

section Writer

open JsonShapeBudget

theorem sortedByKey_map {α β : Type} (f : α → β) (fs : List (Text × α)) :
    sortedByKey (fs.map fun field => (field.1,f field.2)) =
      (sortedByKey fs).map fun field => (field.1,f field.2) := by
  unfold sortedByKey
  rw [map_mergeSort]
  exact fun _ _ _ _ => rfl

theorem sortedByKey_perm {α : Type} (fs : List (Text × α)) : (sortedByKey fs).Perm fs := mergeSort_perm _ _

theorem fieldCopies_eq (fs : List (Text × Json)) (depth : Nat) :
    fieldCopies fs depth = fs.map fun field => (field.1,canonicalValue field.2 depth) := by
  induction fs with
  | nil => rfl
  | cons field fs ih => rw [fieldCopies,ih,map_cons]

def CopiesAs (value : Json) : Prop :=
  ∀ depth budget result, canonicalValue value depth budget = .ok result ↔
    (Shaped depth value ∧ Safe value) ∧ (budget.plus (cost value)).Within ∧
      result = ⟨canonical value,budget.plus (cost value)⟩

theorem copiesAs_scalar {v : Json} {safe : Prop} (shaped : ∀ depth, Shaped depth v)
    (safely : Safe v ↔ safe) (costs : cost v = one false) (same : canonical v = v)
    (copied : ∀ depth n res, canonicalValue v depth n = .ok res ↔
      safe ∧ ∃ charged, charge n false = .ok charged ∧ res = ⟨v,charged⟩) :
    CopiesAs v := by
  intro depth n res
  rw [copied,safely,costs,same]
  simp only [charge_eq_ok,shaped,true_and]
  constructor
  · intro hit
    obtain ⟨safe,charged,⟨within,rfl⟩,rfl⟩ := hit
    exact ⟨safe,within,rfl⟩
  · intro hit
    obtain ⟨safe,within,rfl⟩ := hit
    exact ⟨safe,_,⟨within,rfl⟩,rfl⟩

theorem canonicalFields_eq_ok {fs : List (Text × Json)} {depth : Nat}
    (copies : ∀ field ∈ fs, CopiesAs field.2) {n : JsonShapeBudget} (start : n.Within)
    {res : List (Text × Json) × JsonShapeBudget} :
    canonicalFields (fs.map fun field => (field.1,canonicalValue field.2 depth)) n = .ok res ↔
      (ShapedFields depth fs ∧ SafeFields fs) ∧ (n.plus (fieldsCost fs)).Within ∧
          res = ⟨canonicalPairs fs,n.plus (fieldsCost fs)⟩ := by
  induction fs generalizing n res with
  | nil =>
    simp [canonicalFields,ShapedFields,SafeFields,fieldsCost,canonicalPairs,start,eq_comm]
  | cons field fs ih =>
    have a := copies field (by simp) depth
    have post := fun {n} (start : n.Within) {res} =>
      @ih (fun field mem => copies field (by simp [mem])) n start res
    rw [map_cons,canonicalFields]
    simp only [bind_eq_ok,pure_eq_ok,charge_eq_ok,safeString_eq_ok,a,Prod.exists]
    constructor
    · intro hit
      obtain ⟨_,⟨_,rfl⟩,_,⟨key,rfl⟩,v,charged,⟨⟨shaped,safe⟩,within,same⟩,rest,final,hit,rfl⟩ :=
        hit
      cases same
      obtain ⟨⟨shapedLater,safeLater⟩,whole,same⟩ := (post within).mp hit
      cases same
      simp only [plus_assoc] at whole ⊢
      exact ⟨⟨⟨shaped,shapedLater⟩,⟨key,safe⟩,safeLater⟩,whole,rfl⟩
    · intro accepted
      obtain ⟨⟨⟨shaped,shapedLater⟩,⟨key,safe⟩,safeLater⟩,whole,rfl⟩ := accepted
      rw [fieldsCost,← plus_assoc,← plus_assoc] at whole
      refine ⟨_,⟨whole.left.left,rfl⟩,_,⟨key,rfl⟩,_,_,⟨⟨shaped,safe⟩,whole.left,rfl⟩,_,_,
        (post whole.left).mpr ⟨⟨shapedLater,safeLater⟩,whole,rfl⟩,?_⟩
      simp only [fieldsCost,plus_assoc]
      rfl

theorem copied_scalar (v : Json) (n : JsonShapeBudget) (res : Json × JsonShapeBudget) :
    (do return ⟨v,← charge n false⟩ : Except SupportReportFailure _) = .ok res ↔
      True ∧ ∃ charged, charge n false = .ok charged ∧ res = ⟨v,charged⟩ := by
  rw [bind_eq_ok]
  simp only [pure_eq_ok,true_and]
  exact exists_congr fun _ => and_congr_right fun _ => eq_comm

mutual

theorem canonicalValue_copies : ∀ v : Json, CopiesAs v
  | .null => copiesAs_scalar (fun _ => trivial) Iff.rfl rfl rfl
    fun _ n res => copied_scalar .null n res
  | .bool v => copiesAs_scalar (fun _ => trivial) Iff.rfl rfl rfl
    fun _ n res => copied_scalar (.bool v) n res
  | .string t => copiesAs_scalar (fun _ => trivial) (Iff.refl (SafeText t)) rfl rfl (by
    intro depth n res
    simp only [canonicalValue,bind_eq_ok,pure_eq_ok,safeString_eq_ok]
    constructor
    · intro hit
      obtain ⟨charged,ok,_,⟨safe,rfl⟩,rfl⟩ := hit
      exact ⟨safe,charged,ok,rfl⟩
    · intro accepted
      obtain ⟨safe,charged,ok,rfl⟩ := accepted
      exact ⟨charged,ok,_,⟨safe,rfl⟩,rfl⟩)
  | .number v => copiesAs_scalar (fun _ => trivial) (Iff.refl (v.isFinite = true)) rfl rfl (by
    intro depth n res
    rw [canonicalValue]
    split
    case isTrue finite =>
      rw [copied_scalar]
      simp only [finite]
    case isFalse infinite =>
      refine iff_of_false ?_ fun accepted => infinite accepted.1
      split
      · simp
      · intro hit
        obtain ⟨_,_,failed⟩ := bind_eq_ok.mp hit
        cases failed)
  | .array xs => by
    intro depth n res
    rw [canonicalValue]
    split
    case isTrue deep =>
      refine iff_of_false (by simp) ?_
      intro accepted
      exact Nat.not_lt.mpr deep accepted.1.1.1
    case isFalse shallow =>
      simp only [bind_eq_ok,charge_eq_ok]
      constructor
      · intro hit
        obtain ⟨_,⟨within,rfl⟩,hit⟩ := hit
        split at hit
        case isTrue => cases hit
        case isFalse few =>
          obtain ⟨copied,inside,same⟩ := bind_eq_ok.mp hit
          obtain ⟨⟨shaped,safe⟩,whole,rfl⟩ := (canonicalItems_eq_ok xs within).mp inside
          cases pure_eq_ok.mp same
          rw [plus_assoc] at whole
          refine ⟨⟨⟨Nat.lt_of_not_le shallow,Nat.le_of_not_lt few,shaped⟩,safe⟩,whole,?_⟩
          rw [plus_assoc]
          rfl
      · intro accepted
        obtain ⟨⟨⟨_,few,shaped⟩,safe⟩,whole,rfl⟩ := accepted
        rw [cost,← plus_assoc] at whole
        refine ⟨_,⟨whole.left,rfl⟩,?_⟩
        rw [if_neg (Nat.not_lt.mpr few)]
        refine bind_eq_ok.mpr ⟨_,(canonicalItems_eq_ok xs whole.left).mpr ⟨⟨shaped,safe⟩,whole,rfl⟩,?_⟩
        rw [pure_eq_ok,plus_assoc]
        rfl
  | .object fs => by
    intro depth n res
    have sorted := sortedByKey_map (fun v => canonicalValue v (depth + 1)) fs
    have copies : ∀ field ∈ sortedByKey fs, CopiesAs field.2 := fun field mem =>
      fields_copy fs field ((sortedByKey_perm fs).mem_iff.mp mem)
    have shapes : ShapedFields (depth + 1) (sortedByKey fs) ↔ ShapedFields (depth + 1) fs := by
      rw [shapedFields_iff,shapedFields_iff]
      simp only [(sortedByKey_perm fs).mem_iff]
    have safety : SafeFields (sortedByKey fs) ↔ SafeFields fs := by
      rw [safeFields_iff,safeFields_iff]
      simp only [(sortedByKey_perm fs).mem_iff]
    have costs := fieldsCost_perm (sortedByKey_perm fs)
    have pairs : canonicalPairs (sortedByKey fs) = sortedByKey (canonicalPairs fs) := by
      rw [canonicalPairs_eq,canonicalPairs_eq,sortedByKey_map]
    rw [canonicalValue,fieldCopies_eq,sorted]
    split
    case isTrue deep =>
      refine iff_of_false (by simp) ?_
      intro accepted
      exact Nat.not_lt.mpr deep accepted.1.1.1
    case isFalse shallow =>
      simp only [bind_eq_ok,charge_eq_ok]
      constructor
      · intro hit
        obtain ⟨_,⟨within,rfl⟩,hit⟩ := hit
        split at hit
        case isTrue => cases hit
        case isFalse few =>
          obtain ⟨copied,inside,same⟩ := bind_eq_ok.mp hit
          obtain ⟨⟨shaped,safe⟩,whole,rfl⟩ := (canonicalFields_eq_ok copies within).mp inside
          cases pure_eq_ok.mp same
          rw [shapes] at shaped
          rw [safety] at safe
          rw [costs,plus_assoc] at whole
          refine ⟨⟨⟨Nat.lt_of_not_le shallow,Nat.le_of_not_lt few,shaped⟩,safe⟩,whole,?_⟩
          rw [costs,plus_assoc,pairs]
          rfl
      · intro accepted
        obtain ⟨⟨⟨_,few,shaped⟩,safe⟩,whole,rfl⟩ := accepted
        rw [cost,← plus_assoc,← costs] at whole
        refine ⟨_,⟨whole.left,rfl⟩,?_⟩
        rw [if_neg (Nat.not_lt.mpr few)]
        refine bind_eq_ok.mpr ⟨_,(canonicalFields_eq_ok copies whole.left).mpr
          ⟨⟨shapes.mpr shaped,safety.mpr safe⟩,whole,rfl⟩,?_⟩
        rw [pure_eq_ok,costs,plus_assoc,pairs]
        rfl

theorem canonicalItems_eq_ok : ∀ (xs : List Json) {depth : Nat} {n : JsonShapeBudget}
    (_ : n.Within) {res : List Json × JsonShapeBudget},
    canonicalItems xs depth n = .ok res ↔
      (ShapedItems depth xs ∧ SafeItems xs) ∧ (n.plus (itemsCost xs)).Within ∧
        res = ⟨canonicalList xs,n.plus (itemsCost xs)⟩
  | [], _, _, start, _ => by
    simp [canonicalItems,ShapedItems,SafeItems,itemsCost,canonicalList,start,eq_comm]
  | item :: xs, depth, n, start, res => by
    have a := canonicalValue_copies item depth
    rw [canonicalItems]
    simp only [bind_eq_ok,pure_eq_ok,a,Prod.exists]
    constructor
    · intro hit
      obtain ⟨_,_,⟨⟨shaped,safe⟩,within,same⟩,rest,final,hit,rfl⟩ := hit
      cases same
      obtain ⟨⟨shapedLater,safeLater⟩,whole,same⟩ := (canonicalItems_eq_ok xs within).mp hit
      cases same
      simp only [plus_assoc] at whole ⊢
      exact ⟨⟨⟨shaped,shapedLater⟩,safe,safeLater⟩,whole,rfl⟩
    · intro accepted
      obtain ⟨⟨⟨shaped,shapedLater⟩,safe,safeLater⟩,whole,rfl⟩ := accepted
      rw [itemsCost,← plus_assoc] at whole
      refine ⟨_,_,⟨⟨shaped,safe⟩,whole.left,rfl⟩,_,_,(canonicalItems_eq_ok xs whole.left).mpr
        ⟨⟨shapedLater,safeLater⟩,whole,rfl⟩,?_⟩
      simp only [itemsCost,plus_assoc]
      rfl

theorem fields_copy : ∀ (fs : List (Text × Json)), ∀ field ∈ fs, CopiesAs field.2
  | [] => by simp
  | (key,v) :: fs => by
    intro field mem
    rcases List.mem_cons.mp mem with first | post
    · rw [first]
      exact canonicalValue_copies v
    · exact fields_copy fs field post

end

end Writer

section Order

theorem utf16Units_injective : Function.Injective utf16Units := by
  intro left right same
  have texts := congrArg ofCodeUnits same
  simpa only [utf16Units,ofCodeUnits_flatMap] using texts

theorem sortedByKey_eq {fs fields' : List (Text × Json)} (perm : fs.Perm fields')
    (nodup : (fs.map Prod.fst).Nodup) : sortedByKey fs = sortedByKey fields' := by
  have sorted : ∀ fs : List (Text × Json), (sortedByKey fs).Pairwise
      fun left right => keyLessEq left.1 right.1 = true := by
    intro fs
    apply pairwise_mergeSort
    · intro a b c first second
      simp only [keyLessEq,decide_eq_true_eq] at first second ⊢
      exact le_trans first second
    · intro a b
      simp only [keyLessEq,Bool.or_eq_true,decide_eq_true_eq]
      exact le_total _ _
  have same : (sortedByKey fs).Perm (sortedByKey fields') :=
    ((sortedByKey_perm fs).trans perm).trans (sortedByKey_perm fields').symm
  apply List.Perm.eq_of_pairwise (fun left right mem member' pre after => ?_) (sorted fs) (sorted fields') same
  simp only [keyLessEq,decide_eq_true_eq] at pre after
  have keys : left.1 = right.1 := utf16Units_injective (le_antisymm pre after)
  have inside : left ∈ fs := (sortedByKey_perm fs).mem_iff.mp mem
  have inside' : right ∈ fs :=
    perm.mem_iff.mpr ((sortedByKey_perm fields').mem_iff.mp member')
  exact inj_on_of_nodup_map nodup inside inside' keys

end Order

section Canonical

structure CanonicalOf (value : Json) : Prop where
  plain : Json.Plain (canonical value)
  same : Json.Same value (canonical value)
  again : canonical (canonical value) = canonical value
  cost : cost (canonical value) = cost value
  shaped : ∀ depth, Shaped depth (canonical value) ↔ Shaped depth value
  safe : Safe (canonical value) ↔ Safe value

theorem canonicalList_spec {xs : List Json} (each : ∀ item ∈ xs, CanonicalOf item) :
    itemsCost (canonicalList xs) = itemsCost xs ∧
      (∀ depth, ShapedItems depth (canonicalList xs) ↔ ShapedItems depth xs) ∧
        (SafeItems (canonicalList xs) ↔ SafeItems xs) := by
  induction xs with
  | nil => exact ⟨rfl,fun _ => Iff.rfl,Iff.rfl⟩
  | cons item xs ih =>
    have a := each item (by simp)
    obtain ⟨costs,shaped,safe⟩ := ih fun item mem => each item (by simp [mem])
    refine ⟨?_,fun depth => and_congr (a.shaped depth) (shaped depth),and_congr a.safe safe⟩
    rw [canonicalList,itemsCost,itemsCost,a.cost,costs]

theorem canonical_array {xs : List Json} (each : ∀ item ∈ xs, CanonicalOf item) : CanonicalOf (.array xs) := by
  obtain ⟨costs,shaped,safe⟩ := canonicalList_spec each
  have length : (canonicalList xs).length = xs.length := by
    rw [canonicalList_eq,length_map]
  refine ⟨?_,?_,?_,?_,?_,safe⟩
  · change Json.PlainItems (canonicalList xs)
    rw [canonicalList_eq]
    refine overItems_iff.mpr ?_
    intro item mem
    obtain ⟨item,inside,rfl⟩ := mem_map.mp mem
    exact (each item inside).plain
  · change Json.Same _ (.array (canonicalList xs))
    rw [canonicalList_eq]
    exact .array (sameItems_map fun item mem => (each item mem).same)
  · change array (canonicalList (canonicalList xs)) = .array (canonicalList xs)
    rw [canonicalList_eq,canonicalList_eq,map_map]
    exact congrArg array (map_congr_left fun item mem => (each item mem).again)
  · exact congrArg (JsonShapeBudget.one true).plus costs
  · intro depth
    change (_ ∧ (canonicalList xs).length ≤ _ ∧ ShapedItems (depth + 1) (canonicalList xs)) ↔ _
    rw [length,shaped]
    rfl

theorem canonicalPairs_spec {fs : List (Text × Json)} (each : ∀ field ∈ fs, CanonicalOf field.2) :
    fieldsCost (canonicalPairs fs) = fieldsCost fs ∧
      (∀ depth, ShapedFields depth (canonicalPairs fs) ↔ ShapedFields depth fs) ∧
        (SafeFields (canonicalPairs fs) ↔ SafeFields fs) := by
  induction fs with
  | nil => exact ⟨rfl,fun _ => Iff.rfl,Iff.rfl⟩
  | cons field fs ih =>
    have a := each field (by simp)
    obtain ⟨costs,shaped,safe⟩ := ih fun field mem => each field (by simp [mem])
    refine ⟨?_,fun depth => and_congr (a.shaped depth) (shaped depth),
      and_congr (and_congr_right fun _ => a.safe) safe⟩
    rw [canonicalPairs,fieldsCost,fieldsCost,a.cost,costs]

theorem canonical_object_perm {fs : List (Text × Json)} (enumerated : Json.Enumerated fs) :
    ∃ es, canonical (.object fs) = .object es ∧ Json.Enumerated es ∧
      es.Perm (canonicalPairs fs) := by
  have sorted := sortedByKey_perm (canonicalPairs fs)
  have keys : (canonicalPairs fs).map Prod.fst = fs.map Prod.fst := by
    rw [canonicalPairs_eq,map_map]
    rfl
  have nodup : ((sortedByKey (canonicalPairs fs)).map Prod.fst).Nodup := by
    rw [(sorted.map Prod.fst).nodup_iff,keys]
    exact enumerated.distinct
  exact ⟨_,rfl,enumerated_record _,(Record.fromEntries_perm nodup).trans sorted⟩

theorem canonical_object {fs : List (Text × Json)} (enumerated : Json.Enumerated fs)
    (each : ∀ field ∈ fs, CanonicalOf field.2) : CanonicalOf (.object fs) := by
  obtain ⟨es,copy,ordered,perm⟩ := canonical_object_perm enumerated
  obtain ⟨costs,shaped,safe⟩ := canonicalPairs_spec each
  have pairs := canonicalPairs_eq fs
  have length : es.length = fs.length := by
    rw [perm.length_eq,pairs,length_map]
  have twice : (canonicalPairs es).Perm (canonicalPairs fs) := by
    have image : (canonicalPairs (canonicalPairs fs)) = canonicalPairs fs := by
      rw [canonicalPairs_eq,pairs,map_map]
      apply map_congr_left
      intro field mem
      exact congrArg (fun v => (field.1,v)) (each field mem).again
    rw [← image,canonicalPairs_eq es,canonicalPairs_eq (canonicalPairs fs)]
    exact perm.map _
  refine ⟨?_,?_,?_,?_,?_,?_⟩
  · rw [copy]
    refine ⟨ordered,overFields_iff.mpr ?_⟩
    intro field mem
    have inside := perm.mem_iff.mp mem
    rw [pairs] at inside
    obtain ⟨field,listed,rfl⟩ := mem_map.mp inside
    exact (each field listed).plain
  · rw [copy]
    refine .object ?_ perm.symm
    rw [pairs]
    exact sameFields_map fun field mem => (each field mem).same
  · have nodup : ((canonicalPairs es).map Prod.fst).Nodup := by
      have keys : (canonicalPairs es).map Prod.fst = es.map Prod.fst := by
        rw [canonicalPairs_eq,map_map]
        rfl
      exact keys ▸ ordered.distinct
    have resorted := sortedByKey_eq twice nodup
    rw [copy]
    change objectOf (sortedByKey (canonicalPairs es)) = .object es
    rw [resorted]
    exact copy
  · rw [copy]
    exact congrArg (JsonShapeBudget.one true).plus ((fieldsCost_perm perm).trans costs)
  · intro depth
    rw [copy]
    have fields_shaped : ShapedFields (depth + 1) es ↔ ShapedFields (depth + 1) fs := by
      rw [← shaped,shapedFields_iff,shapedFields_iff]
      simp only [perm.mem_iff]
    change (_ ∧ es.length ≤ _ ∧ ShapedFields (depth + 1) es) ↔ _
    rw [length,fields_shaped]
    rfl
  · rw [copy]
    change SafeFields es ↔ SafeFields fs
    rw [← safe,safeFields_iff,safeFields_iff]
    simp only [perm.mem_iff]

mutual

theorem canonical_spec : ∀ v : Json, Json.Plain v → CanonicalOf v
  | .null, plain => ⟨plain,.null,rfl,rfl,fun _ => Iff.rfl,Iff.rfl⟩
  | .bool v, plain => ⟨plain,.bool v,rfl,rfl,fun _ => Iff.rfl,Iff.rfl⟩
  | .number v, plain => ⟨plain,.number v,rfl,rfl,fun _ => Iff.rfl,Iff.rfl⟩
  | .string t, plain => ⟨plain,.string t,rfl,rfl,fun _ => Iff.rfl,Iff.rfl⟩
  | .array xs, plain => canonical_array (canonicalItems_spec xs plain)
  | .object fs, plain => canonical_object plain.1 (canonicalFields_spec fs plain.2)

theorem canonicalItems_spec : ∀ xs : List Json, Json.PlainItems xs → ∀ item ∈ xs, CanonicalOf item
  | [], _ => by simp
  | item :: xs, plain => by
    intro item' mem
    rcases List.mem_cons.mp mem with first | post
    · rw [first]
      exact canonical_spec item plain.1
    · exact canonicalItems_spec xs plain.2 item' post

theorem canonicalFields_spec : ∀ fs : List (Text × Json), Json.PlainFields fs →
    ∀ field ∈ fs, CanonicalOf field.2
  | [], _ => by simp
  | (key,v) :: fs, plain => by
    intro field mem
    rcases List.mem_cons.mp mem with first | post
    · rw [first]
      exact canonical_spec v plain.1
    · exact canonicalFields_spec fs plain.2 field post

end

end Canonical

end Keiko.SupportReport
