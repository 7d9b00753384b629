import Keiko.Library.Json
import Keiko.Library.OrderedMap
import Mathlib.Data.List.Dedup

/-! The tally of a pull request's formal reviews. The newest review of each user is kept in a running
map, and a review whose time ties with the one kept there makes the tally unknown, also where a still
newer review of the user settles the tie. -/
namespace Keiko.GitCiReviews
open Keiko.Library List OrderedMap

section Tally

inductive ReviewState where
  | approved | changesRequested | commented | dismissed | pending
  deriving DecidableEq

def REVIEW_STATES : List (Text × ReviewState) :=
  [("APPROVED".toList,.approved),("CHANGES_REQUESTED".toList,.changesRequested),("COMMENTED".toList,.commented),
    ("DISMISSED".toList,.dismissed),("PENDING".toList,.pending)]

variable (dateParse : Text → Option ℤ)

/-- A review whose time `Date.parse` reads. -/
structure Review where
  id : ℕ
  userId : ℕ
  state : ReviewState
  commitSha : Text
  submittedAt : Text
  dated : (dateParse submittedAt).isSome = true

variable {dateParse} in
def Review.time (review : Review dateParse) : ℤ := (dateParse review.submittedAt).get review.dated

def positive : Option Json → Option ℕ
  | some (.number (.finite value)) =>
    if value.den = 1 ∧ 0 < value ∧ value ≤ 9007199254740991 then some value.num.toNat else none
  | _ => none

def review : Json → Option (Review dateParse)
  | .object fields => do
    let id ← positive (Json.field fields "id".toList)
    let userId ← positive (Json.field fields "userId".toList)
    let stated ← Json.text? (Json.field fields "state".toList)
    let state ← REVIEW_STATES.lookup stated
    let commitSha ← Json.text? (Json.field fields "commitSha".toList)
    let submittedAt ← Json.text? (Json.field fields "submittedAt".toList)
    if dated : (dateParse submittedAt).isSome = true then some ⟨id,userId,state,commitSha,submittedAt,dated⟩
    else none
  | _ => none

abbrev Latest := OrderedMap ℕ (Review dateParse)

variable {dateParse}

/-- A review that ties with the kept one is not selected. -/
def selectLatestReview (latest : Latest dateParse) (value : Review dateParse) : Option (Latest dateParse) :=
  match latest.get? value.userId with
  | none => some (latest.set value.userId value)
  | some prior =>
    if prior.time < value.time then some (latest.set value.userId value)
    else if value.time = prior.time then none
    else some latest

/-- Comment-only reviews do not withdraw a previous formal approval or request for changes. -/
def Review.isFormal (value : Review dateParse) : Bool := value.state ≠ .commented && value.state ≠ .pending

def approves (headSha : Text) (value : Review dateParse) : Bool := value.state = .approved && value.commitSha = headSha

def requestsChanges (value : Review dateParse) : Bool := value.state = .changesRequested

structure Page where
  values : List Json
  complete : Bool
  entries : ℕ

structure Counts where
  approved : ℕ
  changes : ℕ
  deriving DecidableEq

variable (dateParse)

def tallyReview (tally : Latest dateParse × List ℕ) (value : Json) : Option (Latest dateParse × List ℕ) := do
  let value ← review dateParse value
  if value.id ∈ tally.2 then none
  else if value.isFormal then (selectLatestReview tally.1 value).map fun latest => (latest,value.id :: tally.2)
  else some (tally.1,value.id :: tally.2)

def countLatest (headSha : Text) (latest : Latest dateParse) : Counts :=
  ⟨(latest.values.filter (approves headSha)).length,(latest.values.filter requestsChanges).length⟩

def reviewTally (page : Page) (headSha : Text) : Option Counts :=
  if page.complete = false ∨ page.entries ≠ page.values.length then none
  else (page.values.foldlM (tallyReview dateParse) (.empty,[])).map fun tally => countLatest dateParse headSha tally.1

end Tally

section Declared

variable {dateParse : Text → Option ℤ}

variable (reviews : List (Review dateParse))

def Newest (review : Review dateParse) : Prop :=
  ∀ other ∈ reviews, other.userId = review.userId → other.time ≤ review.time

def Tied (first second : Review dateParse) : Prop :=
  first.id ≠ second.id ∧ first.userId = second.userId ∧ first.time = second.time

def SomeTied : Prop := ∃ first ∈ reviews, ∃ second ∈ reviews, Tied first second

def NewestTied : Prop :=
  ∃ first ∈ reviews, ∃ second ∈ reviews, Tied first second ∧ Newest reviews first

instance (reviews : List (Review dateParse)) (review : Review dateParse) : Decidable (Newest reviews review) :=
  inferInstanceAs (Decidable (∀ other ∈ reviews, _))

instance (first second : Review dateParse) : Decidable (Tied first second) :=
  inferInstanceAs (Decidable (_ ∧ _))

instance (reviews : List (Review dateParse)) : Decidable (NewestTied reviews) :=
  inferInstanceAs (Decidable (∃ first ∈ reviews, ∃ second ∈ reviews, _))

def users (kind : Review dateParse → Bool) : ℕ :=
  ((reviews.map Review.userId).dedup.filter fun user =>
    ∃ review ∈ reviews, review.userId = user ∧ Newest reviews review ∧ kind review = true).length

def declaredTally (headSha : Text) : Option Counts :=
  if NewestTied reviews then none else some ⟨users reviews (approves headSha),users reviews requestsChanges⟩

variable (dateParse)

def formals (values : List Json) : List (Review dateParse) :=
  (values.filterMap (review dateParse)).filter Review.isFormal

structure Page.Complete (page : Page) : Prop where
  complete : page.complete = true
  entries : page.entries = page.values.length
  formed : ∀ value ∈ page.values, (review dateParse value).isSome = true
  distinct : ((page.values.filterMap (review dateParse)).map Review.id).Nodup

end Declared

section Selection

variable {dateParse : Text → Option ℤ} {seen items : List (Review dateParse)} {latest latest' : Latest dateParse}

/-- The map keeps of each user the one review that is newer than all others that were seen. -/
structure Kept (seen : List (Review dateParse)) (latest : Latest dateParse) : Prop where
  newest : ∀ user kept, latest.get? user = some kept → kept ∈ seen ∧ kept.userId = user ∧
    ∀ other ∈ seen, other.userId = user → other = kept ∨ other.time < kept.time
  present : ∀ review ∈ seen, ∃ kept, latest.get? review.userId = some kept

theorem Kept.congr {seen' : List (Review dateParse)} (kept : Kept seen latest)
    (same : ∀ review, review ∈ seen ↔ review ∈ seen') : Kept seen' latest where
  newest user review held := by
    simpa only [← same] using kept.newest user review held
  present review mem := kept.present review ((same review).mpr mem)

/-- A selected review is the one that is kept from now on, or it is older than the one that stays. -/
theorem Kept.select {v : Review dateParse} (kept : Kept seen latest)
    (selected : selectLatestReview latest v = some latest') : Kept (seen ++ [v]) latest' := by
  have replaced (older : ∀ other ∈ seen, other.userId = v.userId → other.time < v.time) :
      Kept (seen ++ [v]) (latest.set v.userId v) := by
    constructor
    · intro user review held
      rw [get?_set] at held
      split at held
      next same =>
        cases held
        refine ⟨by simp,same.symm,fun other mem user => ?_⟩
        rcases mem_append.mp mem with mem | mem
        · exact .inr (older other mem (user.trans same))
        · exact .inl (mem_singleton.mp mem)
      next differ =>
        obtain ⟨mem,user,newest⟩ := kept.newest user review held
        refine ⟨mem_append_left _ mem,user,fun other mem same => ?_⟩
        rcases mem_append.mp mem with mem | mem
        · exact newest other mem same
        · rw [mem_singleton.mp mem] at same
          exact absurd same.symm differ
    · intro review mem
      rw [get?_set]
      split
      · exact ⟨_,rfl⟩
      next differ =>
        rcases mem_append.mp mem with mem | mem
        · exact kept.present review mem
        · exact absurd (by rw [mem_singleton.mp mem]) differ
  rw [selectLatestReview] at selected
  cases held : latest.get? v.userId with
  | none =>
    simp only [held,Option.some.injEq] at selected
    subst selected
    refine replaced fun other mem same => ?_
    obtain ⟨review,hit⟩ := kept.present other mem
    rw [same,held] at hit
    cases hit
  | some prior =>
    obtain ⟨mem,user,newest⟩ := kept.newest _ _ held
    simp only [held] at selected
    split at selected
    next newer =>
      cases selected
      refine replaced fun other mem same => ?_
      rcases newest other mem same with rfl | older
      · exact newer
      · exact older.trans newer
    next early =>
      split at selected
      · cases selected
      next untied =>
        cases selected
        constructor
        · intro user review hit
          obtain ⟨mem,user,newest⟩ := kept.newest user review hit
          refine ⟨mem_append_left _ mem,user,fun other inside same => ?_⟩
          rcases mem_append.mp inside with inside | inside
          · exact newest other inside same
          · cases mem_singleton.mp inside
            rw [← same,held] at hit
            cases hit
            exact .inr (by omega)
        · intro review inside
          rcases mem_append.mp inside with inside | inside
          · exact kept.present review inside
          · cases mem_singleton.mp inside
            exact ⟨prior,held⟩

theorem Kept.run (kept : Kept seen latest) (selected : items.foldlM selectLatestReview latest = some latest') :
    Kept (seen ++ items) latest' := by
  induction items generalizing seen latest with
  | nil =>
    cases selected
    simpa using kept
  | cons v items ih =>
    rw [foldlM_cons] at selected
    obtain ⟨next,a,rest⟩ := Option.bind_eq_some_iff.mp selected
    simpa using ih (kept.select a) rest

theorem Kept.exists_run (kept : Kept seen latest) (untied : (seen ++ items).Pairwise fun a b =>
    a.userId = b.userId → a.time ≠ b.time) :
    ∃ latest', items.foldlM selectLatestReview latest = some latest' := by
  induction items generalizing seen latest with
  | nil => exact ⟨latest,rfl⟩
  | cons v items ih =>
    obtain ⟨next,selected⟩ : ∃ next, selectLatestReview latest v = some next := by
      rw [selectLatestReview]
      cases held : latest.get? v.userId with
      | none => exact ⟨_,rfl⟩
      | some prior =>
        obtain ⟨mem,user,_⟩ := kept.newest _ _ held
        have differ := (pairwise_append.mp untied).2.2 prior mem v mem_cons_self user
        dsimp only
        rw [if_neg (Ne.symm differ)]
        split <;> exact ⟨_,rfl⟩
    rw [foldlM_cons,selected]
    exact ih (kept.select selected) (by simpa using untied)

variable {reviews : List (Review dateParse)}

theorem Kept.get?_iff (kept : Kept reviews latest) {user : ℕ} {review : Review dateParse} :
    latest.get? user = some review ↔ review ∈ reviews ∧ review.userId = user ∧ Newest reviews review := by
  constructor
  · intro held
    obtain ⟨mem,rfl,newest⟩ := kept.newest user review held
    refine ⟨mem,rfl,fun other inside same => ?_⟩
    rcases newest other inside same with rfl | older
    · exact le_refl _
    · exact older.le
  · rintro ⟨mem,rfl,newest⟩
    obtain ⟨prior,held⟩ := kept.present review mem
    obtain ⟨inside,user,older⟩ := kept.newest _ _ held
    rcases older review mem rfl with rfl | older
    · exact held
    · exact absurd (newest prior inside user) (by omega)

theorem Kept.not_newestTied (kept : Kept reviews latest) : ¬ NewestTied reviews := by
  rintro ⟨a,mem,b,inside,⟨differ,user,time⟩,newest⟩
  have held := kept.get?_iff.mpr ⟨mem,rfl,newest⟩
  rcases (kept.newest _ _ held).2.2 b inside user.symm with rfl | older
  · exact differ rfl
  · exact absurd time (by omega)

theorem Kept.length_filter (kept : Kept reviews latest) (kind : Review dateParse → Bool) :
    (latest.values.filter kind).length = users reviews kind := by
  have same : (latest.values.filter kind).length = ((latest.entries.filter fun e => kind e.2).map Prod.fst).length := by
    rw [values,filter_map,length_map,length_map]
    rfl
  rw [same,users]
  refine ((perm_ext_iff_of_nodup ?_ ((nodup_dedup _).filter _)).mpr fun user => ?_).length_eq
  · exact latest.distinct.sublist (filter_sublist.map Prod.fst)
  · simp only [mem_map,mem_filter,mem_dedup,decide_eq_true_eq,Prod.exists,exists_and_right,exists_eq_right,
      mem_entries,kept.get?_iff]
    constructor
    · rintro ⟨review,⟨mem,same,newest⟩,kind⟩
      exact ⟨⟨review,mem,same⟩,review,mem,same,newest,kind⟩
    · rintro ⟨_,review,mem,same,newest,kind⟩
      exact ⟨review,⟨mem,same,newest⟩,kind⟩

end Selection

section Order

variable (dateParse : Text → Option ℤ)

theorem foldlM_tallyReview {values : List Json} {latest : Latest dateParse} {ids : List ℕ}
    (formed : ∀ v ∈ values, (review dateParse v).isSome = true)
    (distinct : (ids ++ (values.filterMap (review dateParse)).map Review.id).Nodup) :
    (values.foldlM (tallyReview dateParse) (latest,ids)).map Prod.fst =
      (formals dateParse values).foldlM selectLatestReview latest := by
  induction values generalizing latest ids with
  | nil => rfl
  | cons v values ih =>
    obtain ⟨read,known⟩ := Option.isSome_iff_exists.mp (formed v mem_cons_self)
    have post := fun v mem => formed v (mem_cons_of_mem _ mem)
    rw [filterMap_cons_some known,map_cons] at distinct
    have fresh : read.id ∉ ids := fun mem => disjoint_of_nodup_append distinct mem mem_cons_self
    have distinct : (read.id :: ids ++ (values.filterMap (review dateParse)).map Review.id).Nodup :=
      (perm_middle.nodup_iff).mp distinct
    rw [foldlM_cons,formals,filterMap_cons_some known,tallyReview,known]
    simp only [Option.bind_eq_bind,Option.bind_some,if_neg fresh]
    cases formal : read.isFormal with
    | false =>
      rw [filter_cons_of_neg (by simp [formal])]
      exact ih post distinct
    | true =>
      rw [filter_cons_of_pos formal,foldlM_cons,if_pos rfl]
      cases selectLatestReview latest read with
      | none => rfl
      | some latest => exact ih post distinct

variable {dateParse} {page : Page} {values : List Json}

theorem Page.Complete.reorder (complete : page.Complete dateParse) (order : values ~ page.values) :
    ({ page with values } : Page).Complete dateParse where
  complete := complete.complete
  entries := complete.entries.trans order.length_eq.symm
  formed value mem := complete.formed value (order.mem_iff.mp mem)
  distinct := ((order.filterMap _).map _).nodup_iff.mpr complete.distinct

theorem Page.Complete.reviewTally_eq (complete : page.Complete dateParse) (headSha : Text) :
    reviewTally dateParse page headSha =
      ((formals dateParse page.values).foldlM selectLatestReview .empty).map (countLatest dateParse headSha) := by
  rw [reviewTally,if_neg (by simp [complete.complete,complete.entries]),
    ← foldlM_tallyReview dateParse complete.formed (show ([] ++ _ : List ℕ).Nodup from complete.distinct),
    Option.map_map]
  rfl

theorem formals_perm (order : values ~ page.values) : formals dateParse values ~ formals dateParse page.values :=
  (order.filterMap _).filter _

theorem kept_empty : Kept ([] : List (Review dateParse)) .empty :=
  ⟨fun _ _ held => (nomatch held),fun _ mem => absurd mem not_mem_nil⟩

theorem exists_perm_cons_cons {α : Type*} {items : List α} {a b : α} (mem : a ∈ items)
    (inside : b ∈ items) (differ : b ≠ a) : ∃ rest, a :: b :: rest ~ items := by
  classical
  have rest := perm_cons_erase ((mem_erase_of_ne differ).mpr inside)
  exact ⟨_,((perm_cons_erase mem).trans (rest.cons a)).symm⟩

theorem Page.Complete.tied_first (complete : page.Complete dateParse)
    (tied : SomeTied (formals dateParse page.values)) (headSha : Text) :
    ∃ values, values ~ page.values ∧ reviewTally dateParse { page with values } headSha = none := by
  obtain ⟨a,mem,b,inside,differ,user,time⟩ := tied
  obtain ⟨mem,formal⟩ := mem_filter.mp mem
  obtain ⟨inside,formal'⟩ := mem_filter.mp inside
  obtain ⟨v,listed,known⟩ := mem_filterMap.mp mem
  obtain ⟨value',listed',known'⟩ := mem_filterMap.mp inside
  have apart : value' ≠ v := by
    rintro rfl
    rw [known] at known'
    exact differ (congrArg Review.id (Option.some.inj known'))
  obtain ⟨rest,order⟩ := exists_perm_cons_cons listed listed' apart
  refine ⟨_,order,?_⟩
  rw [(complete.reorder order).reviewTally_eq]
  simp only [formals,filterMap_cons_some known,filterMap_cons_some known',filter_cons_of_pos formal,
    filter_cons_of_pos formal',foldlM_cons]
  simp [selectLatestReview,← user,time]

theorem reviewTally_declared_iff (complete : page.Complete dateParse) (headSha : Text) :
    (∀ values, values ~ page.values → reviewTally dateParse { page with values } headSha =
        declaredTally (formals dateParse page.values) headSha) ↔
      (SomeTied (formals dateParse page.values) → NewestTied (formals dateParse page.values)) := by
  constructor
  · intro declared tied
    obtain ⟨values,order,unknown⟩ := complete.tied_first tied headSha
    by_contra settled
    have counted := declared values order
    rw [unknown,declaredTally,if_neg settled] at counted
    cases counted
  · intro settled values order
    have reordered := complete.reorder order
    have same : formals dateParse values ~ formals dateParse page.values := formals_perm order
    rw [reordered.reviewTally_eq,declaredTally]
    by_cases tied : NewestTied (formals dateParse page.values)
    · rw [if_pos tied]
      cases selected : (formals dateParse values).foldlM selectLatestReview empty with
      | none => rfl
      | some latest =>
        have kept := (kept_empty.run selected).congr fun _ => same.mem_iff
        exact absurd tied kept.not_newestTied
    · have distinct : (formals dateParse values).Pairwise fun first second => first.id ≠ second.id :=
        pairwise_map.mp (reordered.distinct.sublist (filter_sublist.map Review.id))
      have untied : ([] ++ formals dateParse values).Pairwise fun (first second : Review dateParse) =>
          first.userId = second.userId → first.time ≠ second.time := by
        refine distinct.imp_of_mem fun mem inside differ user time => tied (settled ?_)
        exact ⟨_,same.mem_iff.mp mem,_,same.mem_iff.mp inside,differ,user,time⟩
      obtain ⟨latest,selected⟩ := kept_empty.exists_run untied
      have kept := (kept_empty.run selected).congr fun _ => same.mem_iff
      rw [if_neg tied,selected,Option.map_some,countLatest,kept.length_filter,kept.length_filter]

def sampleDates (text : Text) : Option ℤ :=
  if text = "2026-09-05".toList then some 1788566400000
  else if text = "2026-09-06".toList then some 1788652800000
  else none

def sampleReview (id : ℕ) (submittedAt : Text) : Json :=
  .object [("id".toList,.number (.ofNat id)),("userId".toList,.number (.ofNat 4)),
    ("state".toList,.string "APPROVED".toList),("commitSha".toList,.string "c0de".toList),
    ("submittedAt".toList,.string submittedAt)]

/-- An older tie that the newest review settles. -/
def settledPage : Page :=
  ⟨[sampleReview 3 "2026-09-06".toList,sampleReview 1 "2026-09-05".toList,sampleReview 2 "2026-09-05".toList],true,3⟩

theorem settledPage_complete : settledPage.Complete sampleDates :=
  ⟨rfl,rfl,by decide +kernel,by decide +kernel⟩

theorem reviewTally_declared_iff_settled :
    (∀ values, values ~ settledPage.values → reviewTally sampleDates { settledPage with values } "c0de".toList =
        declaredTally (formals sampleDates settledPage.values) "c0de".toList) ↔
      (SomeTied (formals sampleDates settledPage.values) → NewestTied (formals sampleDates settledPage.values)) :=
  reviewTally_declared_iff settledPage_complete "c0de".toList

theorem reviewTally_order_changes : ¬ ∀ (page : Page) (headSha : Text), page.Complete sampleDates →
    ∀ values, values ~ page.values → reviewTally sampleDates { page with values } headSha =
      declaredTally (formals sampleDates page.values) headSha := by
  intro holds
  have rotated := holds settledPage "c0de".toList settledPage_complete settledPage.values.reverse
    (reverse_perm _)
  revert rotated
  decide +kernel

end Order

end Keiko.GitCiReviews
