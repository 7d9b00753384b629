import Keiko.JiraRequirementTrace

/-! Reconciliation of one draft item with the issue that it may have created before. All pages of
the search are read before an item counts as absent, and a search that cannot be completed is
refused. A server is the answer to each query and offset. -/
namespace Keiko.JiraDraftReconcile
open Keiko.Library List Option Bool
open Keiko.JiraRequirementTrace (JiraFieldMetadata)

structure JiraDraftTarget where
  ref : Option Text
  issueKey : Option Text

structure JiraDraftParent extends JiraDraftTarget where
  fieldId : Text

structure JiraDraftItem where
  projectId : Text
  issueTypeId : Text
  fields : Json.Fields
  parent : Option JiraDraftParent
  identity : Text
  unlabelledTwin : Bool

inductive AtlassianConnectorWriteFailureReason where
  | authFailed
  | permissionDenied
  | notFound
  | rateLimited
  | timeout
  | unavailable
  | malformedPayload
  | boundsExceeded
  | conflict
  | invalidTransition
  | fieldValidation

inductive AtlassianWriteHttpOutcome where
  | ok (body : Option Json.Fields)
  | failed (reason : AtlassianConnectorWriteFailureReason)

inductive JiraMutationAttempt where
  | receipt (issueKey issueId : Text)
  | failed (reason : AtlassianConnectorWriteFailureReason) (messages : List Text)

structure SearchQuery where
  jql : Text
  fields : Text
  maxResults : Text

structure Candidate where
  key : Text
  id : Text
  fields : Json.Fields

section Candidates

def asRecord : Option Json → Option Json.Fields
  | some (.object fields) => some fields
  | _ => none

/-- `/^[A-Za-z0-9~][A-Za-z0-9._~-]{0,127}$/u`. -/
def isSafeAtlassianIdentifier : Text → Bool
  | [] => false
  | c :: rest =>
    let plain (c : Char) := ('A' ≤ c && c ≤ 'Z') || ('a' ≤ c && c ≤ 'z') || Text.isDigit c || c = '~'
    plain c && rest.all (fun c => plain c || c = '.' || c = '_' || c = '-') && rest.length ≤ 127

/-- `/^\d{1,32}$/u`. -/
def numericId (text : Text) : Bool := text.all Text.isDigit && 1 ≤ text.length && text.length ≤ 32

def candidateOf (value : Json) : Option Candidate := do
  let issue ← asRecord (some value)
  let key ← Json.text? (Json.field issue "key".toList)
  let id ← Json.text? (Json.field issue "id".toList)
  if isSafeAtlassianIdentifier key && numericId id then
    some ⟨key,id,(asRecord (Json.field issue "fields".toList)).getD []⟩
  else none

def candidatesOf (issues : List Json) : Option (List Candidate) := issues.mapM candidateOf

/-- `replace(/\s+/gu, " ")` behind a unit that is inside a run of white space or not. -/
def collapseFrom : (inside : Bool) → Text → Text
  | _,[] => []
  | inside,c :: text =>
    if Text.isSpace c then if inside then collapseFrom true text else ' ' :: collapseFrom true text
    else c :: collapseFrom false text

def normalizedSummary (fields : Json.Fields) : Text :=
  match Json.text? (Json.field fields "summary".toList) with
  | some summary => collapseFrom false (Text.trim summary)
  | none => []

def issueKeyOf (value : Option Json) : Option Text :=
  match Json.text? value with
  | some key => some key
  | none => (asRecord value).bind fun record => Json.text? (Json.field record "key".toList)

def sameUnlabelledIssue (fields : Json.Fields) (item : JiraDraftItem) (parentKey : Option Text) : Bool :=
  if normalizedSummary fields ≠ normalizedSummary item.fields then false
  else match item.parent with
    | none => true
    | some parent => parentKey.isSome && issueKeyOf (Json.field fields parent.fieldId) = parentKey

def isMatch (item : JiraDraftItem) (labelled : Bool) (parentKey : Option Text) (candidate : Candidate) : Bool :=
  labelled || sameUnlabelledIssue candidate.fields item parentKey

def matchingIssues (candidates : List Candidate) (item : JiraDraftItem) (labelled : Bool)
    (parentKey : Option Text) : List (Text × Text) :=
  (candidates.filter (isMatch item labelled parentKey)).map fun candidate => (candidate.key,candidate.id)

end Candidates

section Pages

def JIRA_DRAFT_SEARCH_PAGE_SIZE : ℕ := 50

def JIRA_DRAFT_SEARCH_PAGES_MAX : ℕ := 10

inductive Candidates where
  | ok (candidates : List Candidate)
  | refused (attempt : JiraMutationAttempt)

def refusedSearch (reason : AtlassianConnectorWriteFailureReason) : Candidates := .refused (.failed reason [])

def count : Json → Option ℕ
  | .number (.finite value) =>
    if value.den = 1 ∧ 0 ≤ value.num ∧ value.num ≤ 2 ^ 53 - 1 then some value.num.toNat else none
  | _ => none

structure SearchPage where
  total : Option ℕ
  size : ℕ

def pageSize : Option Json → Option ℕ
  | none => some JIRA_DRAFT_SEARCH_PAGE_SIZE
  | some value => (count value).filter (· ≠ 0)

def pageTotal : Option Json → Option (Option ℕ)
  | none => some none
  | some value => (count value).map some

def consistentPage (startAt served size : ℕ) : Option ℕ → Bool
  | none => served ≤ size
  | some total => served ≤ size && startAt + served ≤ total && (0 < served || total ≤ startAt)

variable (body : Option Json.Fields) (startAt served : ℕ)

/-- `body?.name`. -/
def stated (name : Text) : Option Json := body.bind fun fields => Json.field fields name

def startsAt : Bool :=
  match stated body "startAt".toList with
  | some (.number value) => value = Number.ofNat startAt
  | _ => false

def readSearchPage : Option SearchPage := do
  let size ← pageSize (stated body "maxResults".toList)
  let total ← pageTotal (stated body "total".toList)
  if startsAt body startAt && consistentPage startAt served size total then
    some ⟨total,min size JIRA_DRAFT_SEARCH_PAGE_SIZE⟩
  else none

def nextPageStart (page : SearchPage) : Option ℕ :=
  if served = 0 then none
  else match page.total with
    | none => if served < page.size then none else some (startAt + served)
    | some total => if startAt + served < total then some (startAt + served) else none

end Pages

section Search

variable (request : SearchQuery → (startAt : ℕ) → AtlassianWriteHttpOutcome) (query : SearchQuery)
  {collected all : List Candidate} {next : ℕ}

inductive Turn where
  | settled (result : Candidates)
  | more (next : ℕ) (collected : List Candidate)

def searchTurn (startAt : ℕ) (collected : List Candidate) : Turn :=
  match request query startAt with
  | .failed reason => .settled (refusedSearch reason)
  | .ok body =>
    match Json.items? (stated body "issues".toList) with
    | none => .settled (refusedSearch .malformedPayload)
    | some issues =>
      match readSearchPage body startAt issues.length,candidatesOf issues with
      | some page,some candidates =>
        match nextPageStart startAt issues.length page with
        | none => .settled (.ok (collected ++ candidates))
        | some next =>
          if JIRA_DRAFT_SEARCH_PAGES_MAX * JIRA_DRAFT_SEARCH_PAGE_SIZE ≤ next then
            .settled (refusedSearch .boundsExceeded)
          else .more next (collected ++ candidates)
      | _,_ => .settled (refusedSearch .malformedPayload)

structure PageRead (startAt : ℕ) where
  body : Option Json.Fields
  issues : List Json
  page : SearchPage
  candidates : List Candidate
  answered : request query startAt = .ok body
  listed : Json.items? (stated body "issues".toList) = some issues
  read : readSearchPage body startAt issues.length = some page
  identified : candidatesOf issues = some candidates

theorem searchTurn_cases (startAt : ℕ) (collected : List Candidate) :
    (∃ reason, searchTurn request query startAt collected = .settled (refusedSearch reason)) ∨
      ∃ read : PageRead request query startAt, (nextPageStart startAt read.issues.length read.page = none ∧
          searchTurn request query startAt collected = .settled (.ok (collected ++ read.candidates))) ∨
        ∃ next, nextPageStart startAt read.issues.length read.page = some next ∧
          next < JIRA_DRAFT_SEARCH_PAGES_MAX * JIRA_DRAFT_SEARCH_PAGE_SIZE ∧
          searchTurn request query startAt collected = .more next (collected ++ read.candidates) := by
  unfold searchTurn
  cases answered : request query startAt with
  | failed reason => exact .inl ⟨reason,rfl⟩
  | ok body =>
    dsimp only
    cases listed : Json.items? (stated body "issues".toList) with
    | none => exact .inl ⟨_,rfl⟩
    | some issues =>
      dsimp only
      split
      next page candidates read identified =>
        let accepted : PageRead request query startAt :=
          ⟨body,issues,page,candidates,answered,listed,read,identified⟩
        cases start : nextPageStart startAt issues.length page with
        | none => exact .inr ⟨accepted,.inl ⟨start,rfl⟩⟩
        | some next =>
          dsimp only
          split
          case isTrue => exact .inl ⟨_,rfl⟩
          case isFalse within => exact .inr ⟨accepted,.inr ⟨next,start,Nat.lt_of_not_le within,rfl⟩⟩
      · exact .inl ⟨_,rfl⟩

theorem nextPageStart_eq {startAt served : ℕ} {page : SearchPage}
    (start : nextPageStart startAt served page = some next) : next = startAt + served ∧ 0 < served := by
  unfold nextPageStart at start
  split at start
  case isTrue => cases start
  case isFalse some_served =>
    have positive := pos_of_ne_zero some_served
    split at start
    · split at start
      · cases start
      · exact ⟨(some.inj start).symm,positive⟩
    · split at start
      · exact ⟨(some.inj start).symm,positive⟩
      · cases start

theorem lt_of_searchTurn {startAt : ℕ}
    (turn : searchTurn request query startAt collected = .more next all) :
    startAt < next ∧ next < JIRA_DRAFT_SEARCH_PAGES_MAX * JIRA_DRAFT_SEARCH_PAGE_SIZE := by
  obtain ⟨reason,refused⟩ | ⟨read,⟨_,ended⟩ | ⟨hit,start,within,goes⟩⟩ :=
    searchTurn_cases request query startAt collected
  · rw [refused] at turn
    cases turn
  · rw [ended] at turn
    cases turn
  · rw [goes] at turn
    cases turn
    obtain ⟨reached,served⟩ := nextPageStart_eq start
    exact ⟨by omega,within⟩

/-- Every page starts behind the one before it and below the ceiling, so the search ends. -/
def collectCandidates (startAt : ℕ) (collected : List Candidate) : Candidates :=
  match _turn : searchTurn request query startAt collected with
  | .settled result => result
  | .more next all => collectCandidates next all
termination_by JIRA_DRAFT_SEARCH_PAGES_MAX * JIRA_DRAFT_SEARCH_PAGE_SIZE - startAt
decreasing_by
  have bounds := lt_of_searchTurn request query _turn
  omega

theorem collectCandidates_settled {startAt : ℕ} {res : Candidates}
    (turn : searchTurn request query startAt collected = .settled res) :
    collectCandidates request query startAt collected = res := by
  rw [collectCandidates]
  split
  next settled => exact Turn.settled.inj (settled.symm.trans turn)
  next goes => cases goes.symm.trans turn

theorem collectCandidates_more {startAt : ℕ}
    (turn : searchTurn request query startAt collected = .more next all) :
    collectCandidates request query startAt collected = collectCandidates request query next all := by
  rw [collectCandidates]
  split
  next settled => cases settled.symm.trans turn
  next goes =>
    cases goes.symm.trans turn
    rfl

end Search

section Reconcile

inductive JiraDraftReconciliation where
  | absent
  | existing (attempt : JiraMutationAttempt)
  | refused (attempt : JiraMutationAttempt)

def UNLABELLED_TWIN : JiraMutationAttempt :=
  .failed .conflict ["This create screen offers no labels field, so items with the same summary and parent cannot be told apart. Give each item a distinct summary.".toList]

def labelsWritable (metadata : List JiraFieldMetadata) : Bool :=
  metadata.any fun field => field.id = "labels".toList && field.operations.contains "set".toList

def jqlString (value : Text) : Text :=
  let slashes := value.flatMap fun c => if c = '\\' then ['\\','\\'] else [c]
  ['"'] ++ (slashes.flatMap fun c => if c = '"' then ['\\','"'] else [c]) ++ ['"']

variable (item : JiraDraftItem)

def identityQuery (labelled : Bool) : Text :=
  let scope := "project = ".toList ++ item.projectId ++ " AND issuetype = ".toList ++ item.issueTypeId
  if labelled then scope ++ " AND labels = ".toList ++ jqlString item.identity
  else scope ++ " AND summary ~ ".toList ++ jqlString (['"'] ++ normalizedSummary item.fields ++ ['"'])

def searchFields (labelled : Bool) : Text :=
  match labelled,item.parent with
  | false,some parent => "summary,".toList ++ parent.fieldId
  | _,_ => "summary".toList

def searchQuery (labelled : Bool) : SearchQuery :=
  ⟨identityQuery item labelled,searchFields item labelled,Text.numberText JIRA_DRAFT_SEARCH_PAGE_SIZE⟩

def isOrphan (labelled : Bool) (parentKey : Option Text) : Bool :=
  !labelled && item.parent.isSome && parentKey.isNone

def reconcileJiraDraftItem (request : SearchQuery → (startAt : ℕ) → AtlassianWriteHttpOutcome)
    (item : JiraDraftItem) (metadata : List JiraFieldMetadata) (parentKey : Option Text) :
    JiraDraftReconciliation :=
  let labelled := labelsWritable metadata
  if !labelled && item.unlabelledTwin then .refused UNLABELLED_TWIN
  else if isOrphan item labelled parentKey then .absent
  else match collectCandidates request (searchQuery item labelled) 0 [] with
    | .refused attempt => .refused attempt
    | .ok candidates =>
      match matchingIssues candidates item labelled parentKey with
      | [] => .absent
      | [(key,id)] => .existing (.receipt key id)
      | _ => .refused (.failed .conflict [])

end Reconcile

section Completeness

variable {request : SearchQuery → (startAt : ℕ) → AtlassianWriteHttpOutcome} {query : SearchQuery} {list : List Json}
  {body : Option Json.Fields} {collected : List Candidate}

/-- A page that is a slice of one list: as long as the size it states, or as the size asked for
when it states more or none, unless it states a total, which covers the list. -/
structure PageOf (list : List Json) (startAt : ℕ) (body : Option Json.Fields) : Prop where
  slice : ∀ issues, Json.items? (stated body "issues".toList) = some issues →
    ∃ length, issues = (list.drop startAt).take length ∧
      ∀ size, pageSize (stated body "maxResults".toList) = some size →
        stated body "total".toList = none → min size JIRA_DRAFT_SEARCH_PAGE_SIZE ≤ length
  total : ∀ total, pageTotal (stated body "total".toList) = some (some total) → list.length ≤ total

def Contradicts (body : Option Json.Fields) (startAt served : ℕ) : Prop :=
  startsAt body startAt = false ∨
    (∃ size, pageSize (stated body "maxResults".toList) = some size ∧ size < served) ∨
    ∃ total, pageTotal (stated body "total".toList) = some (some total) ∧
      (total < startAt + served ∨ served = 0 ∧ startAt < total)

inductive Reads (request : SearchQuery → (startAt : ℕ) → AtlassianWriteHttpOutcome) (query : SearchQuery) :
    ℕ → List Candidate → Prop
  | first : Reads request query 0 []
  | next {startAt next : ℕ} {collected all : List Candidate} (before : Reads request query startAt collected)
      (turn : searchTurn request query startAt collected = .more next all) : Reads request query next all

theorem readSearchPage_some {startAt served : ℕ} {page : SearchPage}
    (read : readSearchPage body startAt served = some page) :
    startsAt body startAt = true ∧ pageTotal (stated body "total".toList) = some page.total ∧
      ∃ size, pageSize (stated body "maxResults".toList) = some size ∧
        page.size = min size JIRA_DRAFT_SEARCH_PAGE_SIZE ∧
        consistentPage startAt served size page.total = true := by
  simp only [readSearchPage,bind,bind_eq_some_iff] at read
  obtain ⟨size,sized,total,totals,read⟩ := read
  split at read
  case isTrue consistent =>
    rw [and_eq_true] at consistent
    cases read
    exact ⟨consistent.1,totals,size,sized,rfl,consistent.2⟩
  case isFalse => cases read

theorem drop_of_ended {startAt : ℕ} (read : PageRead request query startAt) (slices : PageOf list startAt read.body)
    (ended : nextPageStart startAt read.issues.length read.page = none) : list.drop startAt = read.issues := by
  obtain ⟨length,slice,honoured⟩ := slices.slice _ read.listed
  obtain ⟨_,totals,size,sized,pageSized,consistent⟩ := readSearchPage_some read.read
  have served : read.issues.length = min length (list.length - startAt) := by rw [slice]; simp
  -- A page that leaves candidates behind has the length of its slice.
  have complete : list.length - startAt ≤ read.issues.length → list.drop startAt = read.issues := by
    intro reached
    rw [slice,take_of_length_le]
    rw [length_drop]
    omega
  apply complete
  cases total : read.page.total with
  | none =>
    have unstated : stated read.body "total".toList = none := by
      rw [total] at totals
      unfold pageTotal at totals
      split at totals
      · assumption
      · simp at totals
    have long : read.page.size ≤ length := by
      rw [pageSized]
      exact honoured size sized unstated
    have positive : 0 < read.page.size := by
      have some_size : size ≠ 0 := by
        unfold pageSize at sized
        split at sized
        · cases sized
          decide
        · exact of_decide_eq_true (filter_eq_some_iff.mp sized).2
      have asked : 0 < JIRA_DRAFT_SEARCH_PAGE_SIZE := by decide
      omega
    simp only [nextPageStart,total] at ended
    split at ended
    case isTrue empty => omega
    case isFalse =>
      split at ended
      · omega
      · cases ended
  | some count =>
    have covers := slices.total count (by rw [totals,total])
    rw [total] at consistent
    simp only [consistentPage,and_eq_true,or_eq_true,decide_eq_true_eq] at consistent
    simp only [nextPageStart,total] at ended
    split at ended
    case isTrue => omega
    case isFalse =>
      split at ended
      · cases ended
      · omega

theorem candidatesOf_append {a b : List Json} {left right : List Candidate}
    (identified : candidatesOf a = some left) (more : candidatesOf b = some right) :
    candidatesOf (a ++ b) = some (left ++ right) := by
  rw [candidatesOf] at identified more ⊢
  rw [mapM_append,identified,more]
  rfl

theorem mem_of_candidatesOf {x : Json} {c : Candidate} (identified : candidateOf x = some c)
    {xs : List Json} {all : List Candidate} (hit : candidatesOf xs = some all)
    (mem : x ∈ xs) : c ∈ all := by
  induction xs generalizing all with
  | nil => cases mem
  | cons a xs ih =>
    simp only [candidatesOf,mapM_cons,bind,pure,bind_eq_some_iff,some.injEq] at hit
    obtain ⟨head,headed,tail,tailed,rfl⟩ := hit
    obtain rfl | inside := mem_cons.mp mem
    · cases identified.symm.trans headed
      exact mem_cons_self
    · exact mem_cons_of_mem head (ih tailed inside)

theorem candidatesOf_take {startAt : ℕ} (read : PageRead request query startAt)
    (slices : PageOf list startAt read.body)
    (pre : candidatesOf (list.take startAt) = some collected) :
    candidatesOf (list.take (startAt + read.issues.length)) = some (collected ++ read.candidates) := by
  obtain ⟨length,slice,_⟩ := slices.slice _ read.listed
  have page : (list.drop startAt).take read.issues.length = read.issues := by
    conv_lhs => rw [slice,length_take,take_eq_take_min]
    conv_rhs => rw [slice,take_eq_take_min]
    congr 1
    omega
  rw [take_add,page]
  exact candidatesOf_append pre read.identified

theorem collectCandidates_complete
    (slices : ∀ startAt body, request query startAt = .ok body → PageOf list startAt body)
    (startAt : ℕ) (collected : List Candidate)
    (pre : candidatesOf (list.take startAt) = some collected) :
    (∃ reason, collectCandidates request query startAt collected = refusedSearch reason) ∨
      ∃ all, candidatesOf list = some all ∧ collectCandidates request query startAt collected = .ok all := by
  induction startAt, collected using collectCandidates.induct request query with
  | case1 startAt collected res turn =>
    rw [collectCandidates_settled request query turn]
    obtain ⟨reason,refused⟩ | ⟨read,⟨ended,settled⟩ | ⟨next,_,_,goes⟩⟩ :=
      searchTurn_cases request query startAt collected
    · exact .inl ⟨reason,Turn.settled.inj (turn.symm.trans refused)⟩
    · have slice := slices startAt read.body read.answered
      have last := drop_of_ended read slice ended
      refine .inr ⟨_,?_,Turn.settled.inj (turn.symm.trans settled)⟩
      rw [← take_append_drop startAt list,last]
      exact candidatesOf_append pre read.identified
    · cases turn.symm.trans goes
  | case2 startAt collected next all turn ih =>
    rw [collectCandidates_more request query turn]
    apply ih
    obtain ⟨reason,refused⟩ | ⟨read,⟨_,settled⟩ | ⟨hit,start,_,goes⟩⟩ :=
      searchTurn_cases request query startAt collected
    · cases turn.symm.trans refused
    · cases turn.symm.trans settled
    · cases turn.symm.trans goes
      rw [(nextPageStart_eq start).1]
      exact candidatesOf_take read (slices startAt read.body read.answered) pre

theorem collectCandidates_reads {startAt : ℕ} (reads : Reads request query startAt collected) :
    collectCandidates request query 0 [] = collectCandidates request query startAt collected := by
  induction reads with
  | first => rfl
  | next _ turn ih => exact ih.trans (collectCandidates_more request query turn)

theorem readSearchPage_of_contradicts {startAt served : ℕ}
    (contradicts : Contradicts body startAt served) : readSearchPage body startAt served = none := by
  cases read : readSearchPage body startAt served with
  | none => rfl
  | some page =>
    obtain ⟨starts,totals,size,sized,_,consistent⟩ := readSearchPage_some read
    obtain elsewhere | ⟨stated,hit,more⟩ | ⟨total,hit,other⟩ := contradicts
    · cases elsewhere.symm.trans starts
    · cases hit.symm.trans sized
      cases total : page.total with
      | none => simp [consistentPage,total] at consistent; omega
      | some total => simp [consistentPage,total] at consistent; omega
    · rw [← some.inj (hit.symm.trans totals)] at consistent
      simp only [consistentPage,and_eq_true,or_eq_true,decide_eq_true_eq] at consistent
      omega

theorem collectCandidates_contradicts {startAt : ℕ}
    (reads : Reads request query startAt collected) (answered : request query startAt = .ok body)
    (contradicts : ∀ issues, Json.items? (stated body "issues".toList) = some issues →
      Contradicts body startAt issues.length) :
    ∃ reason, collectCandidates request query 0 [] = refusedSearch reason := by
  rw [collectCandidates_reads reads]
  obtain ⟨reason,refused⟩ | ⟨read,_⟩ := searchTurn_cases request query startAt collected
  · exact ⟨reason,collectCandidates_settled request query refused⟩
  · cases answered.symm.trans read.answered
    cases (readSearchPage_of_contradicts (contradicts _ read.listed)).symm.trans read.read

variable {item : JiraDraftItem} {metadata : List JiraFieldMetadata} {parentKey : Option Text}

theorem isMatch_of_isOrphan {labelled : Bool} (orphan : isOrphan item labelled parentKey = true)
    (c : Candidate) : isMatch item labelled parentKey c = false := by
  simp only [isOrphan,and_eq_true,not_eq_true',isNone_iff_eq_none] at orphan
  obtain ⟨⟨unlabelled,parented⟩,unkeyed⟩ := orphan
  obtain ⟨parent,named⟩ := isSome_iff_exists.mp parented
  simp only [isMatch,sameUnlabelledIssue,unlabelled,named,unkeyed]
  split
  · rfl
  · rfl

theorem reconcileJiraDraftItem_cases
    (request : SearchQuery → (startAt : ℕ) → AtlassianWriteHttpOutcome) (item : JiraDraftItem)
    (metadata : List JiraFieldMetadata) (parentKey : Option Text) :
    (∃ attempt, reconcileJiraDraftItem request item metadata parentKey = .refused attempt) ∨
      (isOrphan item (labelsWritable metadata) parentKey = true ∧
        reconcileJiraDraftItem request item metadata parentKey = .absent) ∨
      ∃ all, collectCandidates request (searchQuery item (labelsWritable metadata)) 0 [] = .ok all ∧
        ((all.filter (isMatch item (labelsWritable metadata) parentKey) = [] ∧
            reconcileJiraDraftItem request item metadata parentKey = .absent) ∨
          ∃ c, all.filter (isMatch item (labelsWritable metadata) parentKey) = [c] ∧
            reconcileJiraDraftItem request item metadata parentKey =
              .existing (.receipt c.key c.id)) := by
  unfold reconcileJiraDraftItem
  dsimp only
  split
  · exact .inl ⟨_,rfl⟩
  · split
    case isTrue orphan => exact .inr (.inl ⟨orphan,rfl⟩)
    case isFalse =>
      cases searched : collectCandidates request (searchQuery item (labelsWritable metadata)) 0 [] with
      | refused attempt => exact .inl ⟨attempt,rfl⟩
      | ok all =>
        dsimp only [matchingIssues]
        cases matching : all.filter (isMatch item (labelsWritable metadata) parentKey) with
        | nil => exact .inr (.inr ⟨all,rfl,.inl ⟨matching,rfl⟩⟩)
        | cons c others =>
          cases others with
          | nil => exact .inr (.inr ⟨all,rfl,.inr ⟨c,matching,rfl⟩⟩)
          | cons => exact .inl ⟨_,rfl⟩

/-- The whole search is read or refused, an item is absent only when nothing on the whole list
matches and existing only when one candidate does, and pages that contradict their counts refuse it. -/
theorem reconcileJiraDraftItem_reads_all
    (request : SearchQuery → (startAt : ℕ) → AtlassianWriteHttpOutcome) (item : JiraDraftItem)
    (metadata : List JiraFieldMetadata) (parentKey : Option Text) (lists : SearchQuery → List Json)
    (slices : ∀ query startAt body, request query startAt = .ok body → PageOf (lists query) startAt body) :
    let query := searchQuery item (labelsWritable metadata)
    let matching := isMatch item (labelsWritable metadata) parentKey
    let answer := reconcileJiraDraftItem request item metadata parentKey
    (∀ query, (∃ reason, collectCandidates request query 0 [] = refusedSearch reason) ∨
      ∃ all, candidatesOf (lists query) = some all ∧ collectCandidates request query 0 [] = .ok all) ∧
    (answer = .absent → ∀ issue ∈ lists query, ∀ candidate, candidateOf issue = some candidate →
      matching candidate = false) ∧
    (∀ attempt, answer = .existing attempt → ∃ all candidate, candidatesOf (lists query) = some all ∧
      all.filter matching = [candidate] ∧ attempt = .receipt candidate.key candidate.id) ∧
    ∀ startAt collected body, Reads request query startAt collected → request query startAt = .ok body →
      (∀ issues, Json.items? (stated body "issues".toList) = some issues →
        Contradicts body startAt issues.length) →
      isOrphan item (labelsWritable metadata) parentKey = false → ∃ attempt, answer = .refused attempt := by
  intro query matching answer
  have searched : ∀ query, (∃ reason, collectCandidates request query 0 [] = refusedSearch reason) ∨
      ∃ all, candidatesOf (lists query) = some all ∧ collectCandidates request query 0 [] = .ok all :=
    fun query => collectCandidates_complete (slices query) 0 [] rfl
  have whole : ∀ all, collectCandidates request query 0 [] = .ok all →
      candidatesOf (lists query) = some all := by
    intro all found
    obtain ⟨reason,refused⟩ | ⟨other,identified,ended⟩ := searched query
    · cases refused.symm.trans found
    · rw [identified,Candidates.ok.inj (ended.symm.trans found)]
  have cases_of := reconcileJiraDraftItem_cases request item metadata parentKey
  refine ⟨searched,?absent,?existing,?contradicts⟩
  case absent =>
    intro absent issue member candidate identified
    obtain ⟨attempt,refused⟩ | ⟨orphan,_⟩ | ⟨all,found,⟨none_matches,_⟩ | ⟨one,_,existing⟩⟩ := cases_of
    · cases absent.symm.trans refused
    · exact isMatch_of_isOrphan orphan candidate
    · have listed : candidate ∈ all := mem_of_candidatesOf identified (whole all found) member
      exact eq_false_of_not_eq_true (filter_eq_nil_iff.mp none_matches candidate listed)
    · cases absent.symm.trans existing
  case existing =>
    intro attempt existing
    obtain ⟨_,refused⟩ | ⟨_,absent⟩ | ⟨all,found,⟨_,absent⟩ | ⟨candidate,one,answered⟩⟩ := cases_of
    · cases existing.symm.trans refused
    · cases existing.symm.trans absent
    · cases existing.symm.trans absent
    · exact ⟨all,candidate,whole all found,one,
        JiraDraftReconciliation.existing.inj (existing.symm.trans answered)⟩
  case contradicts =>
    intro startAt collected body reads answered contradicts keyed
    obtain ⟨reason,refusedSearched⟩ := collectCandidates_contradicts reads answered contradicts
    obtain refused | ⟨orphan,_⟩ | ⟨all,found,_⟩ := cases_of
    · exact refused
    · cases keyed.symm.trans orphan
    · cases refusedSearched.symm.trans found

/-- A server of pages of one candidate that states their size but no total. -/
def servedSingly (list : List Json) (_ : SearchQuery) (startAt : ℕ) : AtlassianWriteHttpOutcome :=
  .ok (some [("startAt".toList,.number (.ofNat startAt)),("maxResults".toList,.number 1),
    ("issues".toList,.array ((list.drop startAt).take 1))])

def sampleIssues : List Json :=
  [.object [("key".toList,.string "KEY-1".toList),("id".toList,.string "10001".toList)],
    .object [("key".toList,.string "KEY-2".toList),("id".toList,.string "10002".toList)]]

def sampleItem : JiraDraftItem := ⟨"1".toList,"2".toList,[],none,"draft".toList,false⟩

theorem pageOf_servedSingly (list : List Json) (query : SearchQuery) (startAt : ℕ)
    (answered : servedSingly list query startAt = .ok body) : PageOf list startAt body := by
  cases answered
  constructor
  case slice =>
    intro xs listed
    refine ⟨1,?_,?_⟩
    · exact (some.inj listed).symm
    · intro size sized _
      have one : size = 1 := by
        have read : pageSize (some (.number 1)) = some 1 := by decide
        exact some.inj (sized.symm.trans read)
      omega
  case total =>
    intro total stated
    cases stated

theorem reconcileJiraDraftItem_reads_all_sample :
    let answer := reconcileJiraDraftItem (servedSingly sampleIssues) sampleItem [] none
    (answer = .absent → ∀ issue ∈ sampleIssues, ∀ candidate, candidateOf issue = some candidate →
      isMatch sampleItem false none candidate = false) :=
  (reconcileJiraDraftItem_reads_all (servedSingly sampleIssues) sampleItem [] none (fun _ => sampleIssues)
    fun query startAt _ answered => pageOf_servedSingly sampleIssues query startAt answered).2.1

end Completeness

end Keiko.JiraDraftReconcile
