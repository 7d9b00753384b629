import Keiko.EditorLayoutRestore
import Keiko.Library.JsonRoundTrip

/-! Writing a layout and restoring it. What the reader clamps, deduplicates or refuses decides
which layouts come back: a restored layout is restorable, and a valid layout comes back from
its own text exactly when it is restorable. -/
namespace Keiko.EditorLayout
open Keiko.Library List Json

section Writing

def directionText : EditorSplitDirection → Text
  | .row => "row".toList
  | .column => "column".toList

def paneNodeFields (paneId : Text) : Json.Fields :=
  [("type".toList,.string "pane".toList),("paneId".toList,.string paneId)]

def splitNodeFields (id : Text) (direction : EditorSplitDirection) (ratio : Number)
    (first second : Json) : Json.Fields :=
  [("type".toList,.string "split".toList),("id".toList,.string id),
    ("direction".toList,.string (directionText direction)),("ratio".toList,.number ratio),
    ("first".toList,first),("second".toList,second)]

def nodeJson : EditorLayoutNode → Json
  | .pane paneId => .object (paneNodeFields paneId)
  | .split id direction ratio first second =>
    .object (splitNodeFields id direction ratio (nodeJson first) (nodeJson second))

def paneFields (pane : EditorPaneStateV2) : Json.Fields :=
  [("id".toList,.string pane.id),("openFiles".toList,.array (pane.openFiles.map .string)),
    ("activeFile".toList,.string pane.activeFile),
    ("tabOrder".toList,.array (pane.tabOrder.map .string))]

def paneJson (pane : EditorPaneStateV2) : Json := .object (paneFields pane)

/-- The object that the source hands to `JSON.stringify`. -/
def layoutRecord (layout : EditorLayoutStateV2) : Json.Fields :=
  [("schemaVersion".toList,.number (.ofNat 2)),("root".toList,.string layout.root),
    ("activePaneId".toList,.string layout.activePaneId),("tree".toList,nodeJson layout.tree),
    ("panes".toList,
      .object (layout.panes.entries.map fun entry => (entry.1,paneJson entry.2))),
    ("sidebarWidth".toList,.number layout.sidebarWidth.round),
    ("sidebarCollapsed".toList,.bool layout.sidebarCollapsed),
    ("outlinePanelVisible".toList,.bool layout.outlinePanelVisible)]

def serializeEditorLayoutStateV2 (layout : EditorLayoutStateV2) : Text :=
  Json.stringify (.object (layoutRecord layout))

end Writing

section Restorable

/-- A pane whose tabs stand in their order and whose active file is missing only with them. -/
structure PaneRestorable (pane : EditorPaneStateV2) : Prop where
  tabOrder : pane.tabOrder = pane.openFiles
  activeFile : pane.activeFile = [] → pane.openFiles = []

def SplitsRestorable : EditorLayoutNode → Prop
  | .pane _ => True
  | .split id _ ratio first second =>
    id ≠ [] ∧ clampRatio ratio = ratio ∧ SplitsRestorable first ∧ SplitsRestorable second

structure Restorable (layout : EditorLayoutStateV2) : Prop where
  paneIds : ∀ paneId ∈ layout.panes.keys, isSafePaneId paneId = true
  panes : ∀ paneId pane, layout.panes.get? paneId = some pane → PaneRestorable pane
  splits : SplitsRestorable layout.tree

structure SameLayout (left right : EditorLayoutStateV2) : Prop where
  root : left.root = right.root
  activePaneId : left.activePaneId = right.activePaneId
  tree : left.tree = right.tree
  panes : ∀ paneId, left.panes.get? paneId = right.panes.get? paneId
  sidebarWidth : left.sidebarWidth = right.sidebarWidth
  sidebarCollapsed : left.sidebarCollapsed = right.sidebarCollapsed
  outlinePanelVisible : left.outlinePanelVisible = right.outlinePanelVisible

theorem SameLayout.restorable {left right : EditorLayoutStateV2} (same : SameLayout left right)
    (restorable : Restorable left) : Restorable right := by
  refine ⟨?_,?_,same.tree ▸ restorable.splits⟩
  · intro id owned
    obtain ⟨p,hit⟩ := (Record.mem_keys _ _).mp owned
    exact restorable.paneIds id ((Record.mem_keys _ _).mpr ⟨p,(same.panes id).trans hit⟩)
  · intro id p hit
    exact restorable.panes id p ((same.panes id).trans hit)

theorem clampRatio_spec (ratio : Number) : ∃ n : ℤ, clampRatio ratio = .finite n ∧ 15 ≤ n ∧ n ≤ 85 := by
  unfold clampRatio clampNumber
  split
  case isTrue => exact ⟨15,by simp [minSplitRatio,Number.ofNat],by norm_num,by norm_num⟩
  case isFalse finite =>
    cases ratio with
    | finite v =>
      refine ⟨min 85 (max 15 ⌊v + 1 / 2⌋),?_,by omega,by omega⟩
      simp only [Number.round,minSplitRatio,maxSplitRatio,Number.ofNat,Number.max,Number.min]
      push_cast
      simp only [max_def,min_def]
    | infinity => simp [Number.round,Number.isFinite] at finite
    | negInfinity => simp [Number.round,Number.isFinite] at finite
    | nan => simp [Number.round,Number.isFinite] at finite

theorem clampNumber_within {v : ℚ} {min max : Number} (above : min.LessEq (.finite v))
    (below : (Number.finite v).LessEq max) : clampNumber (.finite v) min max = .finite v := by
  have raised : Number.max min (.finite v) = .finite v := by
    cases min with
    | finite low => exact congrArg Number.finite (if_pos above)
    | negInfinity => rfl
    | infinity => cases above
    | nan => cases above
  have lowered : Number.min max (.finite v) = .finite v := by
    cases max with
    | finite high =>
      have ordered : v ≤ high := below
      rw [Number.min]
      congr 1
      split
      · linarith
      · rfl
    | infinity => rfl
    | negInfinity => cases below
    | nan => cases below
  rw [clampNumber,raised,lowered]
  rfl

theorem clampRatio_clampRatio (ratio : Number) : clampRatio (clampRatio ratio) = clampRatio ratio := by
  obtain ⟨n,v,low,high⟩ := clampRatio_spec ratio
  rw [v,clampRatio,Number.round_intCast]
  apply clampNumber_within
  · change ((15 : Nat) : ℚ) ≤ n
    exact_mod_cast low
  · change (n : ℚ) ≤ ((85 : Nat) : ℚ)
    exact_mod_cast high

end Restorable

section Restored

theorem createPane_restorable (id activeFile : Text) (openFiles : List Text) :
    PaneRestorable (createPane id activeFile openFiles) := by
  refine ⟨rfl,?_⟩
  intro inactive
  have fs : ∀ f ∈ orderedFiles activeFile openFiles [], f ≠ [] := by
    intro f mem
    exact ((mem_orderedFiles _ _ _ _).mp mem).1
  change activeOr activeFile (orderedFiles activeFile openFiles []) = [] at inactive
  change orderedFiles activeFile openFiles [] = []
  unfold activeOr at inactive
  split at inactive
  case isTrue named => exact absurd inactive ((isNamed_iff _).mp named)
  case isFalse =>
    cases ordered : orderedFiles activeFile openFiles [] with
    | nil => rfl
    | cons f rest =>
      rw [ordered] at inactive fs
      exact absurd inactive (fs f (by simp))

variable {layout : EditorLayoutStateV2} {input : CreateEditorLayoutStateV2Input}
  {panes : List EditorPaneStateV2} {p : EditorPaneStateV2} {n : EditorLayoutNode} {v r : Json.Fields}

theorem normalizePane_restorable {v : Json} {fallbackId : Text}
    (hit : normalizePane v fallbackId = some p) : PaneRestorable p := by
  unfold normalizePane at hit
  split at hit
  case h_1 fs =>
    dsimp only at hit
    split at hit
    · cases hit
      exact createPane_restorable _ _ _
    · contradiction
  case h_2 => contradiction

theorem normalizePaneRecord_restorable (v : Option Json) :
    ∀ p ∈ (normalizePaneRecord v).values, PaneRestorable p := by
  intro p mem
  obtain ⟨⟨id,_⟩,e,rfl⟩ := mem_map.mp mem
  have hit := (Record.get?_eq_some _ _ _).mpr e
  unfold normalizePaneRecord at hit
  split at hit
  case h_1 fs =>
    obtain ⟨inside,_⟩ := get?_paneRecord hit
    obtain ⟨field,_,normalized⟩ := mem_filterMap.mp inside
    split at normalized
    · exact normalizePane_restorable normalized
    · contradiction
  case h_2 => contradiction

theorem normalizePaneList_restorable (v : Option Json) : ∀ p ∈ normalizePaneList v, PaneRestorable p := by
  intro p mem
  obtain ⟨e,_,normalized⟩ := mem_filterMap.mp mem
  exact normalizePane_restorable normalized

theorem namedField_named (v : Json.Fields) (name : Text) {fallback : Text}
    (named : fallback ≠ []) : namedField v name fallback ≠ [] := by
  unfold namedField
  split
  · split
    case isTrue given => exact (isNamed_iff _).mp given
    case isFalse => exact named
  · exact named

theorem splitName_named (i : Nat) : splitName i ≠ [] := by
  exact append_ne_nil_of_left_ne_nil (by decide) _

theorem normalizePaneNode_restorable {panes : Record EditorPaneStateV2} (hit : normalizePaneNode v panes = some n) :
    SplitsRestorable n := by
  unfold normalizePaneNode at hit
  split at hit
  · split at hit
    · split at hit
      · cases hit
        trivial
      · contradiction
    · contradiction
  · contradiction

theorem normalizeSplitNode_restorable {a b : Option EditorLayoutNode} (hit : normalizeSplitNode v a b = some n)
    (left : ∀ n ∈ a, SplitsRestorable n)
    (right : ∀ n ∈ b, SplitsRestorable n) : SplitsRestorable n := by
  unfold normalizeSplitNode at hit
  split at hit
  · cases a with
    | none => exact right n hit
    | some a =>
      cases b with
      | none => exact left n hit
      | some b =>
        cases hit
        exact ⟨namedField_named _ _ (splitName_named 1),clampRatio_clampRatio _,left a rfl,right b rfl⟩
  · contradiction

mutual

theorem normalizeTree_restorable (panes : Record EditorPaneStateV2) :
    ∀ (v : Json), ∀ n ∈ normalizeTree panes v, SplitsRestorable n
  | .object fs => by
    intro n hit
    rw [normalizeTree,Option.mem_def,Option.or_eq_some_iff] at hit
    rcases hit with p | ⟨_,split⟩
    · exact normalizePaneNode_restorable p
    · exact normalizeSplitNode_restorable split (normalizeChild_restorable panes _ fs)
        (normalizeChild_restorable panes _ fs)
  | .null => by simp [normalizeTree]
  | .bool _ => by simp [normalizeTree]
  | .number _ => by simp [normalizeTree]
  | .string _ => by simp [normalizeTree]
  | .array _ => by simp [normalizeTree]

theorem normalizeChild_restorable (panes : Record EditorPaneStateV2) (name : Text) :
    ∀ (fs : List (Text × Json)), ∀ n ∈ normalizeChild panes name fs, SplitsRestorable n
  | [] => by simp [normalizeChild]
  | (key,v) :: fs => by
    rw [normalizeChild]
    split
    · exact normalizeTree_restorable panes v
    · exact normalizeChild_restorable panes name fs

end

theorem paneRecord_restorable (restorable : ∀ p ∈ panes, PaneRestorable p) {id : Text}
    (hit : (paneRecord panes).get? id = some p) :
    isSafePaneId id = true ∧ PaneRestorable p := by
  obtain ⟨mem,_,safe⟩ := get?_paneRecord hit
  exact ⟨safe,restorable p mem⟩

theorem usefulPanes_restorable {preferredPaneId : Option Json}
    (restorable : ∀ p ∈ panes, PaneRestorable p) :
    ∀ p ∈ structurallyUsefulPanes panes preferredPaneId, PaneRestorable p :=
  fun p mem => restorable p ((structurallyUsefulPanes_cases panes preferredPaneId).1 p mem)

theorem restorable_of_panes
    (panes : ∀ id p, layout.panes.get? id = some p → isSafePaneId id = true ∧ PaneRestorable p)
    (splits : SplitsRestorable layout.tree) : Restorable layout := by
  refine ⟨?_,fun id p hit => (panes id p hit).2,splits⟩
  intro id owned
  obtain ⟨p,hit⟩ := (Record.mem_keys _ _).mp owned
  exact (panes id p hit).1

theorem parseV2_restorable (parsed : parseV2 r input = some layout) :
    Restorable layout := by
  unfold parseV2 at parsed
  dsimp only at parsed
  split at parsed
  · contradiction
  · cases parsed
    apply restorable_of_panes
    · intro id p hit
      change (visiblePanesForTree _ _).get? id = some p at hit
      rw [get?_visiblePanes] at hit
      split at hit
      · exact paneRecord_restorable (usefulPanes_restorable (normalizePaneRecord_restorable _)) hit
      · contradiction
    · change SplitsRestorable (Option.getD _ _)
      cases tree : normalizeChild (panesV2 r) "tree".toList r with
      | none => trivial
      | some tree' => exact normalizeChild_restorable _ _ _ tree' tree

theorem v1Tree_restorable (a : EditorPaneStateV2) (b : Option EditorPaneStateV2)
    (r : Json.Fields) : SplitsRestorable (v1Tree a b r) := by
  cases b with
  | none => trivial
  | some b => exact ⟨splitName_named 1,clampRatio_clampRatio _,trivial,trivial⟩

theorem parseV1_restorable (parsed : parseV1 r input = some layout) :
    Restorable layout := by
  unfold parseV1 at parsed
  have panes : ∀ p ∈ panesV1 r, PaneRestorable p :=
    usefulPanes_restorable (normalizePaneList_restorable _)
  split at parsed
  · contradiction
  · next a rest listed =>
    cases parsed
    rw [listed] at panes
    exact restorable_of_panes (fun id p hit => paneRecord_restorable panes hit) (v1Tree_restorable _ _ _)

theorem freshLayout_restorable (input : CreateEditorLayoutStateV2Input) : Restorable (freshLayout input) := by
  apply restorable_of_panes
  · intro paneId p hit
    rw [freshLayout,paneRecordFrom_single] at hit
    dsimp only at hit
    generalize (if isNamed input.file then input.file else _) = activeFile at hit
    rw [Record.get?_set] at hit
    by_cases named : paneId = (createPane (paneName 1) activeFile input.openFiles).id
    · rw [if_pos named] at hit
      cases hit
      subst named
      exact ⟨(by decide : isSafePaneId (paneName 1) = true),createPane_restorable _ _ _⟩
    · rw [if_neg named] at hit
      contradiction
  · trivial

theorem createEditorLayoutStateV2_restorable (parseJson : Text → Option Json) (input : CreateEditorLayoutStateV2Input) :
    Restorable (createEditorLayoutStateV2 parseJson input) := by
  unfold createEditorLayoutStateV2
  cases parsed : parsePersistedLayout parseJson input with
  | none => exact freshLayout_restorable input
  | some layout =>
    obtain ⟨r,_,restored⟩ := Option.bind_eq_some_iff.mp parsed
    unfold parseRecord at restored
    split at restored
    · exact parseV2_restorable restored
    · exact parseV1_restorable restored

end Restored

section Reading

variable {panes : Record EditorPaneStateV2}

theorem stringArray_strings (fs : List Text) :
    stringArray (some (.array (fs.map .string))) = dedupeFiles fs := by
  have texts : (fs.map string).filterMap (fun item => text? (some item)) = fs := by
    induction fs with
    | nil => rfl
    | cons f fs ih =>
      rw [map_cons,filterMap_cons]
      exact congrArg (f :: ·) ih
  simp only [stringArray,items?,texts]
  rfl

theorem normalizePane_paneJson {paneId : Text} {p : EditorPaneStateV2}
    (valid : PaneValid paneId p) (restorable : PaneRestorable p) (named : paneId ≠ [])
    (fallbackId : Text) : normalizePane (paneJson p) fallbackId = some p := by
  obtain ⟨id,openFiles,activeFile,tabOrder⟩ := p
  obtain ⟨rfl,files,active⟩ := valid
  obtain ⟨order,inactive⟩ := restorable
  dsimp only at files active order inactive named
  subst order
  have collected : Distinct.collect isNamed tabOrder tabOrder = tabOrder := by
    have unchanged : ∀ es : List Text, es ⊆ tabOrder →
        Distinct.collect isNamed tabOrder es = tabOrder := by
      intro es inside
      induction es with
      | nil => rfl
      | cons e es ih =>
        rw [Distinct.collect_cons,Distinct.add_of_mem _ (inside (by simp))]
        exact ih fun x mem => inside (by simp [mem])
    exact unchanged tabOrder fun _ mem => mem
  have listed : Distinct.add isNamed tabOrder activeFile = tabOrder := by
    rcases active with rfl | mem
    · exact Distinct.add_of_dropped _ rfl
    · exact Distinct.add_of_mem _ mem
  have ordered : ∀ order, orderedFiles activeFile tabOrder order =
      Distinct.add isNamed (Distinct.collect isNamed (dedupeFiles order) tabOrder) activeFile :=
    fun order => rfl
  have twice : orderedFiles activeFile (orderedFiles activeFile tabOrder tabOrder) [] = tabOrder := by
    rw [ordered tabOrder,← files,collected,listed]
    change Distinct.add isNamed (dedupeFiles tabOrder) activeFile = tabOrder
    rw [← files,listed]
  have shown : activeOr activeFile tabOrder = activeFile := by
    unfold activeOr
    split
    · rfl
    · next unnamed =>
      have empty : activeFile = [] := by simpa using unnamed
      rw [inactive empty,empty]
      rfl
  have idText : text? (field (paneFields ⟨id,tabOrder,activeFile,tabOrder⟩) "id".toList) =
      some id := rfl
  have activeText : normalizedActiveFile (paneFields ⟨id,tabOrder,activeFile,tabOrder⟩) =
      activeFile := rfl
  have opened : stringArray (field (paneFields ⟨id,tabOrder,activeFile,tabOrder⟩)
      "openFiles".toList) = tabOrder := (stringArray_strings tabOrder).trans files.symm
  have tabs : stringArray (field (paneFields ⟨id,tabOrder,activeFile,tabOrder⟩)
      "tabOrder".toList) = tabOrder := (stringArray_strings tabOrder).trans files.symm
  have name : namedField (paneFields ⟨id,tabOrder,activeFile,tabOrder⟩) "id".toList fallbackId =
      id := by
    unfold namedField
    rw [idText]
    exact if_pos ((isNamed_iff id).mpr named)
  have explicit : (items? (field (paneFields ⟨id,tabOrder,activeFile,tabOrder⟩)
      "openFiles".toList)).isSome ∧
      ((text? (field (paneFields ⟨id,tabOrder,activeFile,tabOrder⟩)
        "activeFile".toList)).isSome ∨
      (text? (field (paneFields ⟨id,tabOrder,activeFile,tabOrder⟩)
        "file".toList)).isSome) := ⟨rfl,.inl rfl⟩
  unfold normalizePane paneJson
  dsimp only
  rw [if_pos (.inr (.inr explicit)),name,activeText,opened,tabs,createPane,twice,shown]

theorem paneRecord_values (named : ∀ paneId p, panes.get? paneId = some p → p.id = paneId)
    (safe : ∀ paneId ∈ panes.keys, isSafePaneId paneId = true) :
    paneRecord panes.values = panes := by
  have steps : ∀ (es : List (Text × EditorPaneStateV2)) (r : Record EditorPaneStateV2),
      es ⊆ panes.entries →
      (es.map Prod.snd).foldl (fun r p =>
        if isSafePaneId p.id then r.set p.id p else r) r =
        r.assign es := by
    intro es r inside
    induction es generalizing r with
    | nil => rfl
    | cons e es ih =>
      have mem : e ∈ panes.entries := inside (by simp)
      have id := named e.1 e.2 ((Record.get?_eq_some _ _ _).mpr mem)
      have owned := safe e.1 (mem_map_of_mem mem)
      rw [map_cons,foldl_cons,id,if_pos owned,Record.assign_cons]
      exact ih _ fun x post => inside (by simp [post])
  exact (steps panes.entries Record.empty fun _ mem => mem).trans (Record.fromEntries_entries panes)

theorem normalizePaneRecord_panes (valid : ∀ id p, panes.get? id = some p → PaneValid id p)
    (restorable : ∀ id p, panes.get? id = some p → PaneRestorable p)
    (safe : ∀ id ∈ panes.keys, isSafePaneId id = true) :
    normalizePaneRecord (some (.object (panes.entries.map fun e => (e.1,paneJson e.2)))) = panes := by
  have kept : (panes.entries.map fun e => (e.1,paneJson e.2)).filterMap
      (fun e => if isSafePaneId e.1 then normalizePane e.2 e.1 else none) =
      panes.values := by
    rw [filterMap_map,Record.values,← filterMap_eq_map]
    apply filterMap_congr
    intro e mem
    have hit := (Record.get?_eq_some panes e.1 e.2).mpr mem
    have owned := safe e.1 (mem_map_of_mem mem)
    have named : e.1 ≠ [] := by
      intro unnamed
      rw [unnamed] at owned
      cases owned
    dsimp only [Function.comp_apply]
    rw [if_pos owned,normalizePane_paneJson (valid _ _ hit) (restorable _ _ hit) named]
  rw [normalizePaneRecord,kept]
  exact paneRecord_values (fun id p hit => (valid id p hit).named) safe

theorem structurallyUsefulPanes_all {panes : List EditorPaneStateV2}
    (useful : (∀ p ∈ panes, p.openFiles ≠ []) ∨ panes.length ≤ 1)
    (preferredPaneId : Option Json) : structurallyUsefulPanes panes preferredPaneId = panes := by
  unfold structurallyUsefulPanes
  dsimp only
  by_cases populated : ∀ p ∈ panes, p.openFiles ≠ []
  · have all : panes.filter (fun p => !p.openFiles.isEmpty) = panes := by
      rw [filter_eq_self]
      intro p mem
      simpa using populated p mem
    rw [all]
    split
    · rfl
    · next none_left =>
      obtain rfl : panes = [] := by simpa using none_left
      cases text? preferredPaneId <;> rfl
  · have single := useful.resolve_left populated
    match panes, single with
    | [], _ => simp at populated
    | [p], _ =>
      have empty : p.openFiles = [] := by simpa using populated
      have dropped : [p].filter (fun p => !p.openFiles.isEmpty) = [] := by simp [empty]
      rw [dropped,if_neg (by simp)]
      cases text? preferredPaneId with
      | none => rfl
      | some id =>
        rw [Option.bind_some,find?_singleton]
        split <;> rfl

theorem normalizeChild_eq (panes : Record EditorPaneStateV2) (name : Text) (fs : List (Text × Json)) :
    normalizeChild panes name fs = (Json.field fs name).bind (normalizeTree panes) := by
  induction fs with
  | nil => rfl
  | cons field fs ih =>
    rw [normalizeChild,Json.field,find?_cons]
    by_cases same : field.1 = name
    · simp [same]
    · rw [if_neg same,ih]
      simp [same,Json.field]

theorem normalizeSplitNode_splitNodeFields {id : Text} (direction : EditorSplitDirection) {n : ℚ}
    (json json' : Json) (a b : EditorLayoutNode) (named : id ≠ []) :
    normalizeSplitNode (splitNodeFields id direction (.finite n) json json') (some a)
      (some b) = some (.split id direction (clampRatio (.finite n)) a b) := by
  have fs : normalizeSplitNode (splitNodeFields id direction (.finite n) json json') (some a) (some b) =
        some (.split (if isNamed id then id else splitName 1)
          (parseDirection (some (.string (directionText direction)))) (clampRatio (.finite n))
          a b) := rfl
  have parsed : parseDirection (some (.string (directionText direction))) = direction := by
    cases direction <;> rfl
  rw [fs,parsed,if_pos ((isNamed_iff id).mpr named)]

theorem normalizeTree_nodeJson {tree : EditorLayoutNode} (splits : SplitsRestorable tree)
    (usable : ∀ paneId ∈ paneIdsFromTree tree, usableIn panes paneId = true) :
    normalizeTree panes (nodeJson tree) = some tree := by
  induction tree with
  | pane paneId =>
    have pane : normalizePaneNode (paneNodeFields paneId) panes =
        if usableIn panes paneId then some (.pane paneId) else none := rfl
    rw [nodeJson,normalizeTree,pane,if_pos (usable paneId (by simp [paneIdsFromTree]))]
    rfl
  | split id direction ratio first second ihFirst ihSecond =>
    obtain ⟨named,clamped,splitsFirst,splitsSecond⟩ := splits
    obtain ⟨n,v,_,_⟩ := clampRatio_spec ratio
    have left := ihFirst splitsFirst fun paneId mem =>
      usable paneId (mem_append_left _ mem)
    have right := ihSecond splitsSecond fun paneId mem =>
      usable paneId (mem_append_right _ mem)
    rw [clamped] at v
    subst v
    rw [nodeJson,normalizeTree,normalizeChild_eq,normalizeChild_eq]
    generalize nodeJson first = json at left
    generalize nodeJson second = json' at right
    have noPane : normalizePaneNode (splitNodeFields id direction (.finite n) json json') panes =
        none := rfl
    have firstField : field (splitNodeFields id direction (.finite n) json json')
        "first".toList = some json := rfl
    have secondField : field (splitNodeFields id direction (.finite n) json json')
        "second".toList = some json' := rfl
    rw [noPane,firstField,secondField,Option.bind_some,Option.bind_some,left,right,Option.none_or,
      normalizeSplitNode_splitNodeFields direction json json' first second named,clamped]

end Reading

section RoundTrip

theorem enumerated_names {fs : List (Text × Json)} (names : List Text) (listed : fs.map Prod.fst = names)
    (literal : names.Nodup ∧ ∀ name ∈ names, arrayIndex name = none) : Json.Enumerated fs := by
  subst listed
  refine ⟨literal.1,?_⟩
  apply List.Pairwise.imp_of_mem (fun {left right} _ mem _ => ?_) literal.1
  simp [precedes,literal.2 right mem]

theorem plainItems_strings (fs : List Text) : Json.PlainItems (fs.map .string) := by
  refine overItems_iff.mpr ?_
  intro item mem
  obtain ⟨f,_,rfl⟩ := mem_map.mp mem
  trivial

theorem plain_paneJson (p : EditorPaneStateV2) : Json.Plain (paneJson p) := by
  refine ⟨enumerated_names
    ["id".toList,"openFiles".toList,"activeFile".toList,"tabOrder".toList] rfl (by decide),?_⟩
  exact ⟨trivial,plainItems_strings _,trivial,plainItems_strings _,trivial⟩

theorem plain_nodeJson {tree : EditorLayoutNode} (splits : SplitsRestorable tree) : Json.Plain (nodeJson tree) := by
  induction tree with
  | pane paneId =>
    refine ⟨enumerated_names ["type".toList,"paneId".toList] rfl (by decide),?_⟩
    exact ⟨trivial,trivial,trivial⟩
  | split id direction ratio first second ihFirst ihSecond =>
    obtain ⟨_,clamped,splitsFirst,splitsSecond⟩ := splits
    obtain ⟨n,v,low,high⟩ := clampRatio_spec ratio
    have exact : Binary64.Exact n := Binary64.exact_intCast (by rw [abs_lt]; omega)
    refine ⟨enumerated_names ["type".toList,"id".toList,"direction".toList,
      "ratio".toList,"first".toList,"second".toList] rfl (by decide),?_⟩
    exact ⟨trivial,trivial,trivial,⟨n,clamped.symm.trans v,exact⟩,ihFirst splitsFirst,ihSecond splitsSecond,trivial⟩

/-- The width of the sidebar is a whole number within the bounds of the reader. -/
def WholeWidth (layout : EditorLayoutStateV2) (input : CreateEditorLayoutStateV2Input) : Prop :=
  ∃ n : ℤ, layout.sidebarWidth = .finite n ∧ Binary64.Exact n ∧
    input.minSidebarWidth.LessEq (.finite n) ∧ (Number.finite n).LessEq input.maxSidebarWidth

section Layout

variable {layout : EditorLayoutStateV2} {input : CreateEditorLayoutStateV2Input}

theorem plain_layoutRecord (splits : SplitsRestorable layout.tree) (width : WholeWidth layout input) :
    Json.Plain (.object (layoutRecord layout)) := by
  obtain ⟨n,v,exact,_⟩ := width
  have version : Json.Plain (.number (.ofNat 2)) :=
    ⟨2,rfl,by exact_mod_cast Binary64.exact_intCast (n := 2) (by norm_num)⟩
  have panes : Json.Plain (.object (layout.panes.entries.map fun e => (e.1,paneJson e.2))) := by
    have keys : (layout.panes.entries.map fun e => (e.1,paneJson e.2)).map Prod.fst =
        layout.panes.entries.map Prod.fst := by
      rw [map_map]
      rfl
    refine ⟨⟨keys ▸ layout.panes.distinct,keys ▸ layout.panes.ordered⟩,?_⟩
    refine overFields_iff.mpr ?_
    intro field mem
    obtain ⟨e,_,rfl⟩ := mem_map.mp mem
    exact plain_paneJson e.2
  refine ⟨enumerated_names ["schemaVersion".toList,"root".toList,"activePaneId".toList,
    "tree".toList,"panes".toList,"sidebarWidth".toList,"sidebarCollapsed".toList,
    "outlinePanelVisible".toList] rfl (by decide),?_⟩
  exact ⟨version,trivial,trivial,plain_nodeJson splits,panes,
    ⟨n,by rw [v,Number.round_intCast],exact⟩,trivial,trivial,trivial⟩

theorem Valid.panes_useful (valid : Valid layout) :
    (∀ p ∈ layout.panes.values, p.openFiles ≠ []) ∨ layout.panes.values.length ≤ 1 := by
  by_cases several : 1 < (editorLayoutPaneIds layout).length
  · left
    intro p mem
    obtain ⟨e,listed,rfl⟩ := mem_map.mp mem
    exact valid.populated several e.1 e.2 ((Record.get?_eq_some _ _ _).mpr listed)
  · right
    have inside : layout.panes.keys ⊆ editorLayoutPaneIds layout :=
      fun id owned => (valid.leaves id).mpr owned
    have size := (subperm_of_subset layout.panes.distinct inside).length_le
    rw [Record.values,length_map]
    rw [length_map] at size
    omega

theorem panesV2_layoutRecord (valid : Valid layout) (restorable : Restorable layout) :
    panesV2 (layoutRecord layout) = layout.panes := by
  have stored : field (layoutRecord layout) "panes".toList =
      some (.object (layout.panes.entries.map fun e => (e.1,paneJson e.2))) := rfl
  rw [panesV2,stored,normalizePaneRecord_panes valid.panes restorable.panes restorable.paneIds,
    structurallyUsefulPanes_all valid.panes_useful]
  exact paneRecord_values (fun id p hit => (valid.panes id p hit).named) restorable.paneIds

theorem parseV2_layoutRecord (valid : Valid layout) (restorable : Restorable layout)
    (width : WholeWidth layout input) (root : input.root = layout.root) :
    ∃ restored, parseV2 (layoutRecord layout) input = some restored ∧ SameLayout restored layout := by
  have stored : field (layoutRecord layout) "tree".toList = some (nodeJson layout.tree) := rfl
  have usable : ∀ id ∈ paneIdsFromTree layout.tree, usableIn layout.panes id = true := by
    intro id leaf
    have owned := (valid.leaves id).mp leaf
    obtain ⟨p,hit⟩ := (Record.mem_keys _ _).mp owned
    rw [usableIn,hasResolvablePane,restorable.paneIds id owned,hit]
    rfl
  have tree : normalizeChild layout.panes "tree".toList (layoutRecord layout) = some layout.tree := by
    rw [normalizeChild_eq,stored,Option.bind_some]
    exact normalizeTree_nodeJson restorable.splits usable
  have visible : ∀ id, (visiblePanesForTree layout.tree layout.panes).get? id = layout.panes.get? id := by
    intro id
    rw [get?_visiblePanes]
    split
    · rfl
    · next hidden =>
      exact ((Record.get?_eq_none _ _).mpr fun owned => hidden ((valid.leaves id).mpr owned)).symm
  have active : ∀ fallback, activePaneIdFromRecord (layoutRecord layout)
      (visiblePanesForTree layout.tree layout.panes) fallback = layout.activePaneId := by
    intro fallback
    obtain ⟨p,hit⟩ := (Record.mem_keys _ _).mp valid.activeExists
    have text : text? (field (layoutRecord layout) "activePaneId".toList) =
        some layout.activePaneId := rfl
    unfold activePaneIdFromRecord
    rw [text]
    dsimp only
    rw [hasResolvablePane,visible,hit]
    rfl
  have sidebar : persistedSidebarWidth (layoutRecord layout) input = layout.sidebarWidth := by
    obtain ⟨n,v,_,above,below⟩ := width
    have number : finite? (field (layoutRecord layout) "sidebarWidth".toList) =
        some (.finite n) := by
      change finite? (some (.number layout.sidebarWidth.round)) = _
      rw [v,Number.round_intCast]
      rfl
    rw [persistedSidebarWidth,number,v]
    exact clampNumber_within above below
  obtain ⟨firstPaneId,others,keys⟩ := exists_cons_of_ne_nil (ne_nil_of_mem valid.activeExists)
  unfold parseV2
  rw [panesV2_layoutRecord valid restorable]
  dsimp only
  rw [keys,head?_cons,tree]
  dsimp only
  rw [Option.getD_some]
  refine ⟨_,rfl,root,active _,rfl,visible,sidebar,?_,?_⟩
  · change isBool (some (.bool layout.sidebarCollapsed)) true = layout.sidebarCollapsed
    cases layout.sidebarCollapsed <;> rfl
  · change (!isBool (some (.bool layout.outlinePanelVisible)) false) = layout.outlinePanelVisible
    cases layout.outlinePanelVisible <;> rfl

theorem createEditorLayoutStateV2_serialized (valid : Valid layout) (restorable : Restorable layout)
    (width : WholeWidth layout input) (root : input.root = layout.root)
    (stored : input.layoutJson = some (serializeEditorLayoutStateV2 layout)) :
    SameLayout (createEditorLayoutStateV2 Json.parse input) layout := by
  have parsed : parse (serializeEditorLayoutStateV2 layout) = some (.object (layoutRecord layout)) :=
    parse_stringify (plain_layoutRecord restorable.splits width)
  have written : Text.trim (serializeEditorLayoutStateV2 layout) ≠ [] := by
    have starts : ∃ rest, serializeEditorLayoutStateV2 layout = '\x7b' :: rest := ⟨_,rfl⟩
    obtain ⟨rest,shape⟩ := starts
    rw [shape,Text.trim_cons rest rfl]
    exact cons_ne_nil _ _
  have r : persistedRecord parse input.layoutJson = some (layoutRecord layout) := by
    rw [stored]
    unfold persistedRecord
    dsimp only
    rw [if_neg written,parsed]
  have v : isVersion2 (layoutRecord layout) = true := rfl
  obtain ⟨restored,hit,same⟩ := parseV2_layoutRecord valid restorable width root
  rw [createEditorLayoutStateV2,parsePersistedLayout,r,Option.bind_some,parseRecord,if_pos v,hit]
  exact same

end Layout

/-- A valid layout with a whole width comes back from its own text exactly when it is restorable. -/
theorem createEditorLayoutStateV2_serialized_iff (layout : EditorLayoutStateV2)
    (input : CreateEditorLayoutStateV2Input) (valid : Valid layout) (width : WholeWidth layout input)
    (root : input.root = layout.root)
    (stored : input.layoutJson = some (serializeEditorLayoutStateV2 layout)) :
    SameLayout (createEditorLayoutStateV2 Json.parse input) layout ↔ Restorable layout := by
  constructor
  · intro same
    exact same.restorable (createEditorLayoutStateV2_restorable parse input)
  · intro restorable
    exact createEditorLayoutStateV2_serialized valid restorable width root stored

def reload (layout : EditorLayoutStateV2) : CreateEditorLayoutStateV2Input :=
  ⟨layout.root,[],[],some (serializeEditorLayoutStateV2 layout),280,200,500⟩

theorem wholeWidth_reload {layout : EditorLayoutStateV2} (width : layout.sidebarWidth = 280) :
    WholeWidth layout (reload layout) := by
  refine ⟨280,?_,Binary64.exact_intCast (by norm_num),?_,?_⟩
  · rw [width]
    exact congrArg Number.finite (by norm_num)
  · change ((200 : Nat) : ℚ) ≤ ((280 : ℤ) : ℚ)
    norm_num
  · change ((280 : ℤ) : ℚ) ≤ ((500 : Nat) : ℚ)
    norm_num

theorem createEditorLayoutStateV2_serialized_iff_onePane :
    SameLayout (createEditorLayoutStateV2 Json.parse (reload (onePaneLayout ['a'])))
      (onePaneLayout ['a']) ↔ Restorable (onePaneLayout ['a']) :=
  createEditorLayoutStateV2_serialized_iff (onePaneLayout ['a']) (reload (onePaneLayout ['a']))
    (onePaneLayout_valid ['a']) (wholeWidth_reload rfl) rfl rfl

def unsafePaneLayout : EditorLayoutStateV2 :=
  let pane := createPane "constructor".toList ['a'] [['a']]
  { onePaneLayout ['a'] with
    activePaneId := pane.id
    tree := .pane pane.id
    panes := Record.empty.set pane.id pane }

/-- A pane with the id of an inherited property is not restored. -/
theorem createEditorLayoutStateV2_loses :
    ¬ ∀ layout input, Valid layout → WholeWidth layout input → input.root = layout.root →
      input.layoutJson = some (serializeEditorLayoutStateV2 layout) →
        SameLayout (createEditorLayoutStateV2 Json.parse input) layout := by
  intro returned
  have valid : Valid unsafePaneLayout := single_valid (createPane_valid _ _ _) rfl rfl rfl
  have same := returned unsafePaneLayout (reload unsafePaneLayout) valid (wholeWidth_reload rfl)
    rfl rfl
  have restorable := same.restorable (createEditorLayoutStateV2_restorable parse _)
  have safe := restorable.paneIds "constructor".toList
    ((Record.mem_keys_set _ _ _ _).mpr (.inl rfl))
  revert safe
  decide

end RoundTrip

end Keiko.EditorLayout
