import Keiko.EditorLayout

/-! The layout invariant. Every operation of the reducer keeps it, apart from the
selection of a pane that does not exist; the operations are followed one by one,
each with the relation between pane ids and open files that it leaves behind. -/
namespace Keiko.EditorLayout
open Keiko.Library List

structure PaneValid (paneId : Text) (pane : EditorPaneStateV2) : Prop where
  named : pane.id = paneId
  files : pane.openFiles = dedupeFiles pane.tabOrder
  active : pane.activeFile = [] ∨ pane.activeFile ∈ pane.openFiles

structure Valid (layout : EditorLayoutStateV2) : Prop where
  panes : ∀ paneId pane, layout.panes.get? paneId = some pane → PaneValid paneId pane
  paneIdsDistinct : (editorLayoutPaneIds layout).Nodup
  splitIdsDistinct : (splitIdsFromTree layout.tree).Nodup
  leaves : ∀ paneId, paneId ∈ editorLayoutPaneIds layout ↔ paneId ∈ layout.panes.keys
  populated : 1 < (editorLayoutPaneIds layout).length →
    ∀ paneId pane, layout.panes.get? paneId = some pane → pane.openFiles ≠ []
  activeExists : layout.activePaneId ∈ layout.panes.keys

def OpenIn (layout : EditorLayoutStateV2) (paneId file : Text) : Prop :=
  ∃ pane ∈ layout.panes.get? paneId, file ∈ pane.openFiles

section Files

@[simp] theorem isNamed_iff (file : Text) : isNamed file = true ↔ file ≠ [] := by
  cases file <;> simp [isNamed]

@[simp] theorem mem_orderedFiles (activeFile file : Text) (openFiles tabOrder : List Text) :
    file ∈ orderedFiles activeFile openFiles tabOrder ↔
      file ≠ [] ∧ (file ∈ tabOrder ∨ file ∈ openFiles ∨ file = activeFile) := by
  simp only [orderedFiles,Distinct.mem_add,Distinct.mem_collect,isNamed_iff,not_mem_nil,false_or]
  tauto

theorem dedupe_orderedFiles (activeFile : Text) (openFiles tabOrder : List Text) :
    dedupeFiles (orderedFiles activeFile openFiles tabOrder) = orderedFiles activeFile openFiles tabOrder := by
  have nodup : (orderedFiles activeFile openFiles tabOrder).Nodup :=
    Distinct.nodup_add _ _ (Distinct.nodup_collect _ _ (Distinct.nodup_collect _ _ nodup_nil))
  apply Distinct.collect_eq_append isNamed (by simpa using nodup)
  intro file mem
  exact (isNamed_iff file).mpr ((mem_orderedFiles _ _ _ _).mp mem).1

@[simp] theorem mem_dedupeFiles (file : Text) (fs : List Text) :
    file ∈ dedupeFiles fs ↔ file ≠ [] ∧ file ∈ fs := by
  simp [dedupeFiles]

@[simp] theorem mem_withoutFile (e file : Text) (fs : List Text) :
    e ∈ withoutFile fs file ↔ e ∈ fs ∧ e ≠ file := by
  simp [withoutFile]

@[simp] theorem mem_insertFile (e file : Text) (fs : List Text) (i : Option Number) :
    e ∈ insertFile fs file i ↔ e = file ∨ e ∈ fs := by
  simp only [insertFile,mem_append,mem_cons]
  rw [or_left_comm,← mem_append,take_append_drop,mem_withoutFile]
  tauto

variable {pane : EditorPaneStateV2} {paneId file : Text}

theorem fileAt_mem {fs : List Text} {i : Int} (hit : fileAt fs i = some file) : file ∈ fs := by
  unfold fileAt at hit
  split at hit
  · contradiction
  · exact mem_of_getElem? hit

theorem activeOr_mem {activeFile : Text} {tabOrder : List Text} (listed : activeFile ≠ [] → activeFile ∈ tabOrder) :
    activeOr activeFile tabOrder = [] ∨ activeOr activeFile tabOrder ∈ tabOrder := by
  unfold activeOr
  split
  case isTrue named => exact .inr (listed ((isNamed_iff _).mp named))
  case isFalse =>
    cases a : fileAt tabOrder 0 with
    | none => exact .inl rfl
    | some file => exact .inr (fileAt_mem a)

theorem createPane_valid (id activeFile : Text) (openFiles : List Text) :
    PaneValid id (createPane id activeFile openFiles) := by
  refine ⟨rfl,(dedupe_orderedFiles _ _ _).symm,activeOr_mem ?_⟩
  intro named
  simpa using named

theorem withPaneFiles_valid (named : pane.id = paneId) (fs : List Text) (activeFile : Text) :
    PaneValid paneId (withPaneFiles pane fs activeFile) := by
  refine ⟨named,(dedupe_orderedFiles _ _ _).symm,activeOr_mem ?_⟩
  intro named
  simpa using named

@[simp] theorem mem_withPaneFiles (pane : EditorPaneStateV2) (fs : List Text) (activeFile file : Text) :
    file ∈ (withPaneFiles pane fs activeFile).openFiles ↔ file ≠ [] ∧ (file ∈ fs ∨ file = activeFile) := by
  simp [withPaneFiles]

@[simp] theorem mem_createPane (id activeFile file : Text) (openFiles : List Text) :
    file ∈ (createPane id activeFile openFiles).openFiles ↔ file ≠ [] ∧ (file ∈ openFiles ∨ file = activeFile) := by
  simp [createPane]

theorem PaneValid.file_named
    (valid : PaneValid paneId pane) (opened : file ∈ pane.openFiles) : file ≠ [] := by
  rw [valid.files] at opened
  exact ((mem_dedupeFiles _ _).mp opened).1

theorem PaneValid.mem_tabOrder (valid : PaneValid paneId pane) (named : file ≠ []) :
    file ∈ pane.tabOrder ↔ file ∈ pane.openFiles := by
  rw [valid.files,mem_dedupeFiles]
  exact (and_iff_right named).symm

end Files

section Tree

theorem paneIdsFromTree_ne_nil (tree : EditorLayoutNode) : paneIdsFromTree tree ≠ [] := by
  induction tree with
  | pane => simp [paneIdsFromTree]
  | split _ _ _ a b ih _ => simp [paneIdsFromTree,ih]

variable {tree : EditorLayoutNode} {paneId : Text}

variable (replacement : EditorLayoutNode)

theorem replacePaneNode_absent (absent : paneId ∉ paneIdsFromTree tree) :
    replacePaneNode paneId replacement tree = tree := by
  induction tree with
  | pane id =>
    have other : id ≠ paneId := by simpa [paneIdsFromTree,eq_comm] using absent
    simp [replacePaneNode,other]
  | split id direction ratio a b left right =>
    simp only [paneIdsFromTree,mem_append,not_or] at absent
    rw [replacePaneNode,left absent.1,right absent.2]

theorem paneIds_replacePaneNode (nodup : (paneIdsFromTree tree).Nodup)
    (mem : paneId ∈ paneIdsFromTree tree) :
    (paneIdsFromTree (replacePaneNode paneId replacement tree)).Perm
      (paneIdsFromTree replacement ++ (paneIdsFromTree tree).erase paneId) := by
  induction tree with
  | pane id =>
    obtain rfl : paneId = id := by simpa [paneIdsFromTree] using mem
    simp [replacePaneNode,paneIdsFromTree]
  | split id direction ratio first b left right =>
    simp only [paneIdsFromTree] at nodup mem ⊢
    obtain ⟨firstDistinct,secondDistinct,apart⟩ := nodup_append.mp nodup
    by_cases inFirst : paneId ∈ paneIdsFromTree first
    · have notSecond : paneId ∉ paneIdsFromTree b :=
        fun inSecond => apart paneId inFirst paneId inSecond rfl
      rw [replacePaneNode,paneIdsFromTree,replacePaneNode_absent _ notSecond,erase_append_left _ inFirst,← append_assoc]
      exact (left firstDistinct inFirst).append_right _
    · have inSecond := (mem_append.mp mem).resolve_left inFirst
      rw [replacePaneNode,paneIdsFromTree,replacePaneNode_absent _ inFirst,erase_append_right _ inFirst]
      exact ((right secondDistinct inSecond).append_left _).trans (perm_append_comm_assoc _ _ _)

theorem splitIds_replacePaneNode (nodup : (paneIdsFromTree tree).Nodup)
    (mem : paneId ∈ paneIdsFromTree tree) :
    (splitIdsFromTree (replacePaneNode paneId replacement tree)).Perm
      (splitIdsFromTree replacement ++ splitIdsFromTree tree) := by
  induction tree with
  | pane id =>
    obtain rfl : paneId = id := by simpa [paneIdsFromTree] using mem
    simp [replacePaneNode,splitIdsFromTree]
  | split id direction ratio first b left right =>
    simp only [paneIdsFromTree] at nodup mem
    obtain ⟨firstDistinct,secondDistinct,apart⟩ := nodup_append.mp nodup
    have front : ∀ rest : List Text, (id :: (splitIdsFromTree replacement ++ rest)).Perm
          (splitIdsFromTree replacement ++ id :: rest) :=
      fun rest => perm_middle.symm
    by_cases inFirst : paneId ∈ paneIdsFromTree first
    · have notSecond : paneId ∉ paneIdsFromTree b :=
        fun inSecond => apart paneId inFirst paneId inSecond rfl
      rw [replacePaneNode,splitIdsFromTree,replacePaneNode_absent _ notSecond,splitIdsFromTree]
      refine (((left firstDistinct inFirst).append_right _).cons id).trans ?_
      rw [append_assoc]
      exact front _
    · have inSecond := (mem_append.mp mem).resolve_left inFirst
      rw [replacePaneNode,splitIdsFromTree,replacePaneNode_absent _ inFirst,splitIdsFromTree]
      refine (((right secondDistinct inSecond).append_left _).cons id).trans ?_
      exact ((perm_append_comm_assoc _ _ _).cons id).trans (front _)

theorem paneIds_removePaneNode (paneId : Text) (tree : EditorLayoutNode) :
    (removePaneNode paneId tree).elim [] paneIdsFromTree = (paneIdsFromTree tree).filter fun id => id != paneId := by
  induction tree with
  | pane id =>
    by_cases same : id = paneId <;> simp [removePaneNode,paneIdsFromTree,same]
  | split id direction ratio a b left right =>
    rw [removePaneNode,paneIdsFromTree,filter_append,← left,← right]
    cases removePaneNode paneId a <;> cases removePaneNode paneId b <;>
      simp [paneIdsFromTree]

theorem splitIds_removePaneNode (paneId : Text) (tree : EditorLayoutNode) :
    ((removePaneNode paneId tree).elim [] splitIdsFromTree).Sublist (splitIdsFromTree tree) := by
  induction tree with
  | pane id => by_cases same : id = paneId <;> simp [removePaneNode,splitIdsFromTree,same]
  | split id direction ratio a b left right =>
    rw [removePaneNode,splitIdsFromTree]
    have both := left.append right
    cases keptFirst : removePaneNode paneId a <;>
      cases keptSecond : removePaneNode paneId b <;>
      simp only [keptFirst,keptSecond,Option.elim_none,Option.elim_some,nil_append,append_nil] at both ⊢
    · exact both.cons id
    · exact both.cons id
    · exact both.cons id
    · exact both.cons_cons id

@[simp] theorem paneIds_resizeSplitNode (splitId : Text) (ratio : Number) (tree : EditorLayoutNode) :
    paneIdsFromTree (resizeSplitNode splitId ratio tree) = paneIdsFromTree tree := by
  induction tree with
  | pane => rfl
  | split _ _ _ _ _ left right => simp [resizeSplitNode,paneIdsFromTree,left,right]

@[simp] theorem splitIds_resizeSplitNode (splitId : Text) (ratio : Number) (tree : EditorLayoutNode) :
    splitIdsFromTree (resizeSplitNode splitId ratio tree) = splitIdsFromTree tree := by
  induction tree with
  | pane => rfl
  | split _ _ _ _ _ left right => simp [resizeSplitNode,splitIdsFromTree,left,right]

theorem resizeSplitNode_absent {splitId : Text} (ratio : Number)
    (absent : splitId ∉ splitIdsFromTree tree) : resizeSplitNode splitId ratio tree = tree := by
  induction tree with
  | pane => rfl
  | split id _ _ a b left right =>
    simp only [splitIdsFromTree,mem_cons,mem_append,not_or] at absent
    have other : id ≠ splitId := fun same => absent.1 same.symm
    simp [resizeSplitNode,other,left absent.2.1,right absent.2.2]

end Tree

section Operations

@[simp] theorem paneRecordFrom_single (base : Record EditorPaneStateV2) (paneId : Text)
    (pane : EditorPaneStateV2) : paneRecordFrom base [(paneId,pane)] = base.set paneId pane := by
  simp [paneRecordFrom]

variable {layout : EditorLayoutStateV2} {paneId : Text}

theorem Valid.leaf_of_get? (valid : Valid layout)
    {pane : EditorPaneStateV2} (hit : layout.panes.get? paneId = some pane) :
    paneId ∈ editorLayoutPaneIds layout :=
  (valid.leaves paneId).mpr ((Record.mem_keys _ _).mpr ⟨pane,hit⟩)

theorem Valid.file_named (valid : Valid layout)
    {file : Text} (opened : OpenIn layout paneId file) : file ≠ [] := by
  obtain ⟨pane,hit,mem⟩ := opened
  exact (valid.panes paneId pane hit).file_named mem

theorem Valid.two_leaves (valid : Valid layout)
    {firstId secondId : Text} {a b : EditorPaneStateV2} (other : firstId ≠ secondId)
    (hit : layout.panes.get? firstId = some a) (found' : layout.panes.get? secondId = some b) :
    1 < (editorLayoutPaneIds layout).length := by
  have mem : [firstId,secondId] ⊆ editorLayoutPaneIds layout := by
    simp [valid.leaf_of_get? hit,valid.leaf_of_get? found']
  exact (subperm_of_subset (by simpa using other) mem).length_le

section Update
variable {layout : EditorLayoutStateV2} {id : Text} {update : EditorPaneStateV2 → EditorPaneStateV2}
  {pane : EditorPaneStateV2}

theorem updatePane_missing (gone : layout.panes.get? id = none) : updatePane layout id update = layout := by
  rw [updatePane,gone]

theorem updatePane_found (hit : layout.panes.get? id = some pane) :
    updatePane layout id update = { layout with panes := layout.panes.set id (update pane) } := by
  rw [updatePane,hit]
  simp

theorem updatePane_same (hit : layout.panes.get? id = some pane)
    (same : update pane = pane) : updatePane layout id update = layout := by
  rw [updatePane_found hit,same,Record.set_get? hit]

theorem updatePane_valid (valid : Valid layout) (keeps : ∀ pane, layout.panes.get? id = some pane →
      PaneValid id (update pane) ∧ (1 < (editorLayoutPaneIds layout).length → (update pane).openFiles ≠ [])) :
    Valid (updatePane layout id update) := by
  cases hit : layout.panes.get? id with
  | none => rwa [updatePane_missing hit]
  | some pane =>
    obtain ⟨paneValid,paneFull⟩ := keeps pane hit
    have owned : id ∈ layout.panes.keys := (Record.mem_keys _ _).mpr ⟨pane,hit⟩
    have sameKeys : ∀ key, key ∈ (layout.panes.set id (update pane)).keys ↔ key ∈ layout.panes.keys := by
      intro key
      rw [Record.mem_keys_set]
      exact or_iff_right_of_imp (fun same => same ▸ owned)
    rw [updatePane_found hit]
    refine ⟨?_,valid.paneIdsDistinct,valid.splitIdsDistinct,?_,?_,?_⟩
    · intro key pane' found'
      rw [Record.get?_set] at found'
      split at found'
      case isTrue same =>
        cases found'
        exact same ▸ paneValid
      case isFalse => exact valid.panes key pane' found'
    · intro key
      exact (valid.leaves key).trans (sameKeys key).symm
    · intro several key pane' found'
      rw [Record.get?_set] at found'
      split at found'
      case isTrue =>
        cases found'
        exact paneFull several
      case isFalse => exact valid.populated several key pane' found'
    · exact (sameKeys _).mpr valid.activeExists

theorem openIn_updatePane (hit : layout.panes.get? id = some pane) (key file : Text) :
    OpenIn (updatePane layout id update) key file ↔
      if key = id then file ∈ (update pane).openFiles else OpenIn layout key file := by
  rw [updatePane_found hit]
  simp only [OpenIn,Record.get?_set]
  split <;> simp

end Update

section Remove
variable {layout : EditorLayoutStateV2} {paneId : Text}

theorem get?_withoutPane (panes : Record EditorPaneStateV2) (paneId key : Text) :
    (Record.fromEntries (panes.entries.filter fun e => e.1 != paneId)).get? key =
      if key = paneId then none else panes.get? key := by
  have nodup : ((panes.entries.filter fun e => e.1 != paneId).map Prod.fst).Nodup :=
    panes.distinct.sublist (filter_sublist.map Prod.fst)
  apply Option.ext
  intro pane
  rw [Record.get?_fromEntries nodup,mem_filter]
  split
  case isTrue same => simp [same]
  case isFalse other => simp [other,Record.get?_eq_some]

/-- What `removePane` can do: nothing, or take out one of several leaves and its entry. -/
theorem removePane_cases (layout : EditorLayoutStateV2) (paneId : Text) : (removePane layout paneId = layout ∧
      (layout.panes.get? paneId = none ∨ (editorLayoutPaneIds layout).length ≤ 1 ∨
        removePaneNode paneId layout.tree = none)) ∨
    ∃ nextTree nextActivePaneId, removePane layout paneId = { layout with
          tree := nextTree
          panes := Record.fromEntries (layout.panes.entries.filter fun e => e.1 != paneId)
          activePaneId := nextActivePaneId } ∧
      removePaneNode paneId layout.tree = some nextTree ∧
      1 < (editorLayoutPaneIds layout).length ∧
      (nextActivePaneId ∈ paneIdsFromTree nextTree ∨
        (nextActivePaneId = layout.activePaneId ∧ layout.activePaneId ≠ paneId)) := by
  unfold removePane
  split
  case isTrue kept =>
    refine .inl ⟨rfl,?_⟩
    exact kept.imp_right .inl
  case isFalse here =>
    cases removed : removePaneNode paneId layout.tree with
    | none => exact .inl ⟨rfl,.inr (.inr rfl)⟩
    | some nextTree =>
      refine .inr ⟨nextTree,_,rfl,rfl,by simp only [not_or] at here; omega,?_⟩
      split
      case isTrue =>
        obtain ⟨a,rest,leaves⟩ := exists_cons_of_ne_nil (paneIdsFromTree_ne_nil nextTree)
        simp [leaves]
      case isFalse other => exact .inr ⟨rfl,other⟩

theorem removePane_valid (valid : Valid layout) (paneId : Text) : Valid (removePane layout paneId) := by
  obtain ⟨same,-⟩ | ⟨nextTree,nextActivePaneId,res,removed,several,active⟩ :=
    removePane_cases layout paneId
  · rwa [same]
  have nextLeaves := paneIds_removePaneNode paneId layout.tree
  have nextSplits := splitIds_removePaneNode paneId layout.tree
  rw [removed,Option.elim_some] at nextLeaves nextSplits
  have leaves : ∀ key, key ∈ paneIdsFromTree nextTree ↔ key ∈ (Record.fromEntries
        (layout.panes.entries.filter fun e => e.1 != paneId)).keys := by
    intro key
    rw [nextLeaves,mem_filter,Record.mem_keys,get?_withoutPane]
    have listed := valid.leaves key
    rw [Record.mem_keys] at listed
    split
    case isTrue same => simp [same]
    case isFalse other => simpa [other,editorLayoutPaneIds] using listed
  rw [res]
  refine ⟨?_,?_,valid.splitIdsDistinct.sublist nextSplits,leaves,?_,?_⟩
  · intro key pane hit
    rw [get?_withoutPane] at hit
    split at hit
    · contradiction
    · exact valid.panes key pane hit
  · change (paneIdsFromTree nextTree).Nodup
    rw [nextLeaves]
    exact valid.paneIdsDistinct.filter _
  · intro _ key pane hit
    rw [get?_withoutPane] at hit
    split at hit
    · contradiction
    · exact valid.populated several key pane hit
  · apply (leaves nextActivePaneId).mp
    obtain mem | ⟨rfl,other⟩ := active
    · exact mem
    · rw [nextLeaves,mem_filter]
      exact ⟨(valid.leaves _).mpr valid.activeExists,by simpa using other⟩

theorem removePaneNode_isSome (valid : Valid layout)
    (several : 1 < (editorLayoutPaneIds layout).length) (paneId : Text) :
    removePaneNode paneId layout.tree ≠ none := by
  intro removed
  have leaves := paneIds_removePaneNode paneId layout.tree
  rw [removed,Option.elim_none,eq_comm,filter_eq_nil_iff] at leaves
  have inside : editorLayoutPaneIds layout ⊆ [paneId] := by
    intro id mem
    simpa using leaves id mem
  have size := (subperm_of_subset valid.paneIdsDistinct inside).length_le
  simp only [length_singleton] at size
  omega

theorem openIn_removePane (valid : Valid layout) {pane : EditorPaneStateV2}
    (hit : layout.panes.get? paneId = some pane)
    (several : 1 < (editorLayoutPaneIds layout).length) (key file : Text) :
    OpenIn (removePane layout paneId) key file ↔ key ≠ paneId ∧ OpenIn layout key file := by
  obtain ⟨-,gone | few | removed⟩ | ⟨nextTree,nextActivePaneId,res,-⟩ :=
    removePane_cases layout paneId
  · simp [hit] at gone
  · omega
  · exact absurd removed (removePaneNode_isSome valid several paneId)
  · rw [res]
    simp only [OpenIn,get?_withoutPane]
    split
    case isTrue same => simp [same]
    case isFalse other => simp [other]

end Remove

section Close
variable {layout : EditorLayoutStateV2} {id file : Text} {pane : EditorPaneStateV2}

theorem closeTab_absent (absent : ¬ OpenIn layout id file) : closeTab layout id file = layout := by
  unfold closeTab
  cases hit : layout.panes.get? id with
  | none => rfl
  | some pane => exact if_pos fun mem => absent ⟨pane,hit,mem⟩

/-- What closing an open tab does: its pane is removed, or keeps its other files and
shows one of them. -/
theorem closeTab_cases (valid : PaneValid id pane)
    (hit : layout.panes.get? id = some pane) (opened : file ∈ pane.openFiles) :
    (withoutFile pane.openFiles file = [] ∧ 1 < (editorLayoutPaneIds layout).length ∧
      closeTab layout id file = removePane layout id) ∨
    ∃ nextActive, closeTab layout id file = updatePane layout id (fun cur =>
        withPaneFiles cur (withoutFile pane.openFiles file) nextActive) ∧
      (1 < (editorLayoutPaneIds layout).length → withoutFile pane.openFiles file ≠ []) ∧
      (nextActive = [] ∨ nextActive ∈ withoutFile pane.openFiles file) := by
  simp only [closeTab,hit,opened,not_true_eq_false,if_false]
  by_cases emptied : withoutFile pane.openFiles file = []
  · rw [if_pos emptied]
    by_cases several : 1 < (editorLayoutPaneIds layout).length
    · exact .inl ⟨emptied,several,if_pos several⟩
    · refine .inr ⟨[],?_,fun many => absurd many several,.inl rfl⟩
      rw [if_neg several,emptied]
  · rw [if_neg emptied]
    refine .inr ⟨_,rfl,fun _ => emptied,?_⟩
    split
    case isTrue =>
      cases next : (fileAt (withoutFile pane.openFiles file) (indexOf pane.tabOrder file) <|>
          fileAt (withoutFile pane.openFiles file) (indexOf pane.tabOrder file - 1) <|>
          fileAt (withoutFile pane.openFiles file) 0) with
      | none => exact .inl rfl
      | some e =>
        simp only [Option.orElse_eq_orElse,Option.orElse_eq_or,Option.or_eq_some_iff] at next
        obtain at_index | ⟨-,before | ⟨-,a⟩⟩ := next
        · exact .inr (fileAt_mem at_index)
        · exact .inr (fileAt_mem before)
        · exact .inr (fileAt_mem a)
    case isFalse other =>
      refine valid.active.imp_right fun listed => ?_
      exact (mem_withoutFile _ _ _).mpr ⟨listed,other⟩

theorem closeTab_valid (valid : Valid layout) (id file : Text) : Valid (closeTab layout id file) := by
  by_cases opened : OpenIn layout id file
  · obtain ⟨pane,hit,mem⟩ := opened
    obtain ⟨-,-,res⟩ | ⟨nextActive,res,full,active⟩ :=
      closeTab_cases (valid.panes id pane hit) hit mem
    · rw [res]
      exact removePane_valid valid id
    · rw [res]
      apply updatePane_valid valid
      intro cur found'
      obtain rfl : pane = cur := Option.some.inj (hit.symm.trans found')
      refine ⟨withPaneFiles_valid (valid.panes id pane hit).named _ _,?_⟩
      intro several
      obtain ⟨rest,listed⟩ := exists_mem_of_ne_nil _ (full several)
      apply ne_nil_of_mem ((mem_withPaneFiles _ _ _ rest).mpr ⟨?_,.inl listed⟩)
      exact (valid.panes id pane hit).file_named ((mem_withoutFile _ _ _).mp listed).1
  · rwa [closeTab_absent opened]

theorem openIn_closeTab (valid : Valid layout) (id file key e : Text) :
    OpenIn (closeTab layout id file) key e ↔ OpenIn layout key e ∧ ¬(key = id ∧ e = file) := by
  by_cases opened : OpenIn layout id file
  · obtain ⟨pane,hit,mem⟩ := opened
    have paneValid := valid.panes id pane hit
    have inPane : OpenIn layout id e ↔ e ∈ pane.openFiles := by
      simp [OpenIn,Option.mem_def.mp hit]
    obtain ⟨emptied,several,res⟩ | ⟨nextActive,res,-,active⟩ :=
      closeTab_cases paneValid hit mem
    · rw [res,openIn_removePane valid hit several]
      by_cases same : key = id
      · subst same
        have only : e ∈ pane.openFiles → e = file := by
          intro listed
          by_contra other
          have rest := (mem_withoutFile _ _ _).mpr ⟨listed,other⟩
          simp [emptied] at rest
        rw [inPane]
        tauto
      · simp [same]
    · rw [res,openIn_updatePane hit]
      split
      case isTrue same =>
        subst same
        rw [inPane,mem_withPaneFiles]
        constructor
        · intro kept
          have listed : e ∈ withoutFile pane.openFiles file := by
            obtain ⟨named,listed | rfl⟩ := kept
            · exact listed
            · exact active.resolve_left named
          have both := (mem_withoutFile _ _ _).mp listed
          exact ⟨both.1,fun gone => both.2 gone.2⟩
        · intro kept
          exact ⟨paneValid.file_named kept.1,
            .inl ((mem_withoutFile _ _ _).mpr ⟨kept.1,fun gone => kept.2 ⟨rfl,gone⟩⟩)⟩
      case isFalse other => simp [other]
  · rw [closeTab_absent opened]
    constructor
    · intro kept
      refine ⟨kept,?_⟩
      intro gone
      obtain ⟨rfl,rfl⟩ := gone
      exact opened kept
    · exact And.left

theorem closeTab_get?_other (layout : EditorLayoutStateV2) {id key : Text} (file : Text) (other : key ≠ id) :
    (closeTab layout id file).panes.get? key = layout.panes.get? key := by
  have updated : ∀ update, (updatePane layout id update).panes.get? key = layout.panes.get? key := by
    intro update
    cases found : layout.panes.get? id with
    | none => rw [updatePane_missing found]
    | some pane =>
      rw [updatePane_found found]
      simp [Record.get?_set,other]
  unfold closeTab
  split
  · rfl
  split
  · rfl
  dsimp only
  split
  · split
    · obtain ⟨same,-⟩ | ⟨nextTree,nextActivePaneId,res,-⟩ := removePane_cases layout id
      · rw [same]
      · rw [res]
        simp [get?_withoutPane,other]
    · exact updated _
  · exact updated _

end Close

section Insert
variable {layout : EditorLayoutStateV2}

theorem paneName_injective : Function.Injective paneName :=
  fun _ _ same => Text.numberText_injective (append_cancel_left same)

theorem splitName_injective : Function.Injective splitName :=
  fun _ _ same => Text.numberText_injective (append_cancel_left same)

theorem nextPaneId_fresh (layout : EditorLayoutStateV2) : nextPaneId layout ∉ layout.panes.keys :=
  Distinct.freeIndex_free paneName_injective (le_refl _) _

theorem nextSplitId_fresh (tree : EditorLayoutNode) : nextSplitId tree ∉ splitIdsFromTree tree := by
  intro taken
  have used : nextSplitId tree ∈ Distinct.collect (fun _ => true) [] (splitIdsFromTree tree) := by
    simpa using taken
  exact Distinct.freeIndex_free splitName_injective (le_refl _) _ used

variable {targetPaneId file : Text} {direction : EditorSplitDirection} {pre : Bool} {pane : EditorPaneStateV2}

theorem insertSplitPane_missing (gone : layout.panes.get? targetPaneId = none) :
    insertSplitPane layout targetPaneId direction file pre = layout :=
  if_pos (.inl gone)

theorem insertSplitPane_found
    (hit : layout.panes.get? targetPaneId = some pane) (named : file ≠ []) :
    insertSplitPane layout targetPaneId direction file pre = { layout with
        activePaneId := nextPaneId layout
        tree := replacePaneNode targetPaneId (.split (nextSplitId layout.tree) direction (.ofNat 50)
            (.pane (if pre then nextPaneId layout else targetPaneId))
            (.pane (if pre then targetPaneId else nextPaneId layout))) layout.tree
        panes := layout.panes.set (nextPaneId layout) (createPane (nextPaneId layout) file [file]) } := by
  rw [insertSplitPane,if_neg (by simp [hit,named])]
  simp only [paneRecordFrom_single]

theorem insertSplitPane_valid (valid : Valid layout)
    (full : ∀ pane, layout.panes.get? targetPaneId = some pane → pane.openFiles ≠ [])
    (named : file ≠ []) :
    Valid (insertSplitPane layout targetPaneId direction file pre) := by
  cases hit : layout.panes.get? targetPaneId with
  | none => rwa [insertSplitPane_missing hit]
  | some tgt =>
    have targetLeaf := valid.leaf_of_get? hit
    have freshLeaf : nextPaneId layout ∉ editorLayoutPaneIds layout :=
      fun mem => nextPaneId_fresh layout ((valid.leaves _).mp mem)
    rw [insertSplitPane_found hit named]
    set newPaneId := nextPaneId layout
    set replacement := EditorLayoutNode.split (nextSplitId layout.tree) direction (.ofNat 50)
      (.pane (if pre then newPaneId else targetPaneId))
      (.pane (if pre then targetPaneId else newPaneId))
    have both : (paneIdsFromTree replacement).Perm [newPaneId,targetPaneId] := by
      cases pre
      · exact List.Perm.swap _ _ _
      · exact List.Perm.refl _
    have nextLeaves : (paneIdsFromTree (replacePaneNode targetPaneId replacement layout.tree)).Perm
        (newPaneId :: editorLayoutPaneIds layout) := by
      refine (paneIds_replacePaneNode _ valid.paneIdsDistinct targetLeaf).trans ?_
      refine (both.append_right _).trans ?_
      exact (perm_cons_erase targetLeaf).symm.cons newPaneId
    have nextSplits := splitIds_replacePaneNode replacement valid.paneIdsDistinct targetLeaf
    refine ⟨?_,nextLeaves.nodup_iff.mpr (nodup_cons.mpr ⟨freshLeaf,valid.paneIdsDistinct⟩),nextSplits.nodup_iff.mpr
        (nodup_cons.mpr ⟨nextSplitId_fresh layout.tree,valid.splitIdsDistinct⟩),?_,?_,?_⟩
    · intro key pane found'
      rw [Record.get?_set] at found'
      split at found'
      case isTrue same =>
        cases found'
        exact same ▸ createPane_valid _ _ _
      case isFalse => exact valid.panes key pane found'
    · intro key
      refine (nextLeaves.mem_iff).trans ?_
      rw [mem_cons,Record.mem_keys_set,valid.leaves]
    · intro _ key pane found'
      rw [Record.get?_set] at found'
      split at found'
      case isTrue =>
        cases found'
        exact ne_nil_of_mem ((mem_createPane _ _ file _).mpr ⟨named,.inr rfl⟩)
      case isFalse =>
        by_cases same : key = targetPaneId
        · exact full pane (same ▸ found')
        · exact valid.populated (valid.two_leaves same found' hit) key pane found'
    · exact (Record.mem_keys_set _ _ _ _).mpr (.inl rfl)

theorem openIn_insertSplitPane {tgt : EditorPaneStateV2}
    (hit : layout.panes.get? targetPaneId = some tgt) (named : file ≠ [])
    (key e : Text) :
    OpenIn (insertSplitPane layout targetPaneId direction file pre) key e ↔
      OpenIn layout key e ∨ (key = nextPaneId layout ∧ e = file) := by
  have unowned : ¬ OpenIn layout (nextPaneId layout) e := by
    intro opened
    obtain ⟨pane,found',-⟩ := opened
    exact nextPaneId_fresh layout ((Record.mem_keys _ _).mpr ⟨pane,found'⟩)
  rw [insertSplitPane_found hit named]
  simp only [OpenIn,Record.get?_set] at unowned ⊢
  split
  case isTrue same =>
    subst same
    simp only [Option.mem_def,Option.some.injEq,exists_eq_left',mem_createPane,mem_singleton,or_self,true_and]
    constructor
    · exact fun fresh => .inr fresh.2
    · intro either
      obtain opened | rfl := either
      · exact absurd opened unowned
      · exact ⟨named,rfl⟩
  case isFalse other => simp [other]

theorem splitPane_cases (layout : EditorLayoutStateV2) (paneId : Text)
    (direction : EditorSplitDirection) (file : Option Text) (pre : Bool) :
    splitPane layout paneId direction file pre = layout ∨
    ∃ pane activeFile, layout.panes.get? paneId = some pane ∧ activeFile = file.getD pane.activeFile ∧
      activeFile ≠ [] ∧ activeFile ∈ pane.openFiles ∧
      withoutFile pane.openFiles activeFile ≠ [] ∧
      splitPane layout paneId direction file pre =
        insertSplitPane (closeTab layout paneId activeFile) paneId direction activeFile pre := by
  unfold splitPane
  cases found : layout.panes.get? paneId with
  | none => exact .inl rfl
  | some pane =>
    dsimp only
    split
    case isTrue => exact .inl rfl
    case isFalse usable =>
      split
      case isTrue => exact .inl rfl
      case isFalse rest =>
        rw [not_or,not_not] at usable
        exact .inr ⟨pane,_,rfl,rfl,usable.1,usable.2,rest,rfl⟩

theorem closeTab_keeps_pane (valid : Valid layout) {paneId file : Text}
    (hit : layout.panes.get? paneId = some pane) (rest : withoutFile pane.openFiles file ≠ []) :
    ∃ next, (closeTab layout paneId file).panes.get? paneId = some next ∧ next.openFiles ≠ [] := by
  obtain ⟨e,listed⟩ := exists_mem_of_ne_nil _ rest
  have kept := (mem_withoutFile _ _ _).mp listed
  have still : OpenIn (closeTab layout paneId file) paneId e := by
    rw [openIn_closeTab valid]
    exact ⟨⟨pane,hit,kept.1⟩,fun gone => kept.2 gone.2⟩
  obtain ⟨next,found',mem⟩ := still
  exact ⟨next,found',ne_nil_of_mem mem⟩

theorem splitPane_valid (valid : Valid layout) (paneId : Text) (direction : EditorSplitDirection)
    (file : Option Text) (pre : Bool) :
    Valid (splitPane layout paneId direction file pre) := by
  obtain same | ⟨pane,activeFile,hit,_,named,_,rest,res⟩ :=
    splitPane_cases layout paneId direction file pre
  · rwa [same]
  obtain ⟨next,found',full⟩ := closeTab_keeps_pane valid hit rest
  rw [res]
  apply insertSplitPane_valid (closeTab_valid valid paneId activeFile) _ named
  intro cur same
  obtain rfl : next = cur := Option.some.inj (found'.symm.trans same)
  exact full

end Insert

section Move
variable {layout : EditorLayoutStateV2}

theorem showTab_valid (valid : Valid layout) {paneId file : Text} {pane : EditorPaneStateV2}
    (hit : layout.panes.get? paneId = some pane) (named : file ≠ [])
    (arrange : List Text → List Text) :
    Valid (updatePane layout paneId fun cur =>
      withPaneFiles cur (arrange cur.tabOrder) file) := by
  apply updatePane_valid valid
  intro cur found'
  obtain rfl : pane = cur := Option.some.inj (hit.symm.trans found')
  refine ⟨withPaneFiles_valid (valid.panes paneId pane hit).named _ _,fun _ => ?_⟩
  exact ne_nil_of_mem ((mem_withPaneFiles _ _ _ file).mpr ⟨named,.inr rfl⟩)

theorem moveTab_cases (layout : EditorLayoutStateV2) (fromPaneId toPaneId file : Text) (targetIndex : Option Number) :
    moveTab layout fromPaneId toPaneId file targetIndex = layout ∨
    (∃ pane, fromPaneId = toPaneId ∧ layout.panes.get? toPaneId = some pane ∧ file ∈ pane.openFiles ∧
      moveTab layout fromPaneId toPaneId file targetIndex = updatePane layout toPaneId fun cur =>
          withPaneFiles cur (insertFile cur.tabOrder file targetIndex) file) ∨
    (∃ fromPane toPane, fromPaneId ≠ toPaneId ∧ layout.panes.get? fromPaneId = some fromPane ∧
      layout.panes.get? toPaneId = some toPane ∧ file ∈ fromPane.openFiles ∧
      moveTab layout fromPaneId toPaneId file targetIndex =
        { updatePane (closeTab layout fromPaneId file) toPaneId fun pane =>
            withPaneFiles pane (insertFile pane.tabOrder file targetIndex) file with
          activePaneId := toPaneId }) := by
  unfold moveTab
  split
  case isTrue same =>
    cases found : layout.panes.get? toPaneId with
    | none => exact .inl rfl
    | some pane =>
      by_cases opened : file ∈ pane.openFiles
      · exact .inr (.inl ⟨pane,same,rfl,opened,by simp [opened]⟩)
      · exact .inl (by simp [opened])
  case isFalse other =>
    cases found : layout.panes.get? fromPaneId with
    | none => exact .inl rfl
    | some fromPane =>
      cases found' : layout.panes.get? toPaneId with
      | none => exact .inl rfl
      | some toPane =>
        by_cases opened : file ∈ fromPane.openFiles
        · have still : (closeTab layout fromPaneId file).panes.get? toPaneId = some toPane := by
            rw [closeTab_get?_other layout file (Ne.symm other),found']
          exact .inr (.inr ⟨fromPane,toPane,other,rfl,rfl,opened,by simp [opened,still]⟩)
        · exact .inl (by simp [opened])

theorem moveTab_valid (valid : Valid layout) (fromPaneId toPaneId file : Text)
    (targetIndex : Option Number) : Valid (moveTab layout fromPaneId toPaneId file targetIndex) := by
  obtain same | ⟨pane,-,hit,opened,res⟩ |
      ⟨fromPane,toPane,other,hit,found',opened,res⟩ :=
    moveTab_cases layout fromPaneId toPaneId file targetIndex
  · rwa [same]
  · rw [res]
    exact showTab_valid valid hit ((valid.panes toPaneId pane hit).file_named opened)
      (insertFile · file targetIndex)
  · have named := (valid.panes fromPaneId fromPane hit).file_named opened
    have still : (closeTab layout fromPaneId file).panes.get? toPaneId = some toPane := by
      rw [closeTab_get?_other layout file (Ne.symm other),found']
    have shown := showTab_valid (closeTab_valid valid fromPaneId file) still named (insertFile · file targetIndex)
    rw [res]
    refine { shown with activeExists := ?_ }
    rw [updatePane_found still]
    exact (Record.mem_keys_set _ _ _ _).mpr (.inl rfl)

theorem reduceDropTab_valid (valid : Valid layout) (intent : EditorTabDragIntent) :
    Valid (reduceDropTab layout intent) := by
  unfold reduceDropTab
  split
  case isTrue => exact moveTab_valid valid _ _ _ _
  case isFalse =>
    cases hit : layout.panes.get? intent.fromPaneId with
    | none => exact valid
    | some fromPane =>
      dsimp only
      split
      case isTrue => exact valid
      case isFalse opened =>
        split
        case isTrue => exact splitPane_valid valid _ _ _ _
        case isFalse other =>
          have named := (valid.panes _ fromPane hit).file_named (not_not.mp opened)
          apply insertSplitPane_valid (closeTab_valid valid _ _) _ named
          intro toPane found'
          rw [closeTab_get?_other layout intent.file (Ne.symm other)] at found'
          exact valid.populated (valid.two_leaves other hit found') _ toPane found'

end Move

section Paths
variable {fromPath toPath : Text} {pane : EditorPaneStateV2} {file : Text}

theorem renamePathUnderPrefix_named (fromNamed : fromPath ≠ []) (toNamed : toPath ≠ [])
    (file : Text) : renamePathUnderPrefix file fromPath toPath ≠ [] ↔ file ≠ [] := by
  unfold renamePathUnderPrefix
  split
  case isTrue same => simp [same,fromNamed,toNamed]
  case isFalse =>
    split
    case isTrue under =>
      have some_file : file ≠ [] := by
        intro empty
        simp [empty] at under
      simp [some_file,toNamed]
    case isFalse => rfl

theorem renamePathUnderPrefix_other (outside : isAtOrUnder fromPath file = false) :
    renamePathUnderPrefix file fromPath toPath = file := by
  simp only [isAtOrUnder,Bool.or_eq_false_iff,beq_eq_false_iff_ne] at outside
  rw [renamePathUnderPrefix,if_neg outside.1,if_neg (by simp [outside.2])]

theorem renamedPane_valid {paneId : Text} (fromNamed : fromPath ≠ [])
    (toNamed : toPath ≠ []) (valid : PaneValid paneId pane) :
    PaneValid paneId (renamedPane fromPath toPath pane) ∧
      (pane.openFiles ≠ [] → (renamedPane fromPath toPath pane).openFiles ≠ []) := by
  set swap := fun file => renamePathUnderPrefix file fromPath toPath with swapped
  have swap_named := renamePathUnderPrefix_named fromNamed toNamed
  have opened : dedupeFiles (pane.openFiles.map swap) = dedupeFiles (pane.tabOrder.map swap) := by
    rw [valid.files]
    apply Distinct.collect_map_collect
    intro file unnamed
    rw [← Bool.not_eq_true,isNamed_iff,swapped] at *
    exact fun named => unnamed ((swap_named file).mp named)
  have moved : ∀ file ∈ pane.openFiles, swap file ∈ dedupeFiles (pane.openFiles.map swap) := by
    intro file mem
    rw [mem_dedupeFiles]
    exact ⟨(swap_named file).mpr (valid.file_named mem),mem_map_of_mem mem⟩
  unfold renamedPane renameFileInPane
  dsimp only
  split
  case isTrue => exact ⟨valid,id⟩
  case isFalse =>
    refine ⟨⟨valid.named,?_,?_⟩,?_⟩
    · change dedupeFiles (pane.openFiles.map swap) = dedupeFiles (dedupeFiles (pane.tabOrder.map swap))
      rw [opened]
      exact (Distinct.collect_collect isNamed _).symm
    · dsimp only [Option.getD_some]
      split
      case isTrue named =>
        apply Or.inr
        have listed := valid.active.resolve_left ((swap_named pane.activeFile).mp ((isNamed_iff _).mp named))
        exact moved pane.activeFile listed
      case isFalse =>
        cases next : (fileAt (dedupeFiles (pane.tabOrder.map swap)) 0 <|>
            fileAt (dedupeFiles (pane.openFiles.map swap)) 0) with
        | none => exact .inl rfl
        | some file =>
          simp only [Option.orElse_eq_orElse,Option.orElse_eq_or,Option.or_eq_some_iff] at next
          obtain first | ⟨-,first⟩ := next
          · exact .inr (opened ▸ fileAt_mem first)
          · exact .inr (fileAt_mem first)
    · intro full
      obtain ⟨file,mem⟩ := exists_mem_of_ne_nil _ full
      exact ne_nil_of_mem (moved file mem)

theorem get?_renamed (panes : Record EditorPaneStateV2) (paneId : Text) :
    (Record.fromEntries (panes.entries.map fun e =>
      (e.1,renamedPane fromPath toPath e.2))).get? paneId =
        (panes.get? paneId).map (renamedPane fromPath toPath) := by
  have nodup : ((panes.entries.map fun e =>
      (e.1,renamedPane fromPath toPath e.2)).map Prod.fst).Nodup := by
    rw [map_map]
    exact panes.distinct
  apply Option.ext
  intro pane
  rw [Record.get?_fromEntries nodup,Option.map_eq_some_iff]
  simp [Record.get?_eq_some]

variable {layout : EditorLayoutStateV2}

theorem renameFileEverywhere_valid (valid : Valid layout) (fromPath toPath : Text) :
    Valid (renameFileEverywhere layout fromPath toPath) := by
  unfold renameFileEverywhere
  split
  case isTrue => exact valid
  case isFalse useful =>
    rw [not_or,not_or] at useful
    dsimp only
    split
    case isFalse => exact valid
    case isTrue =>
      have keys : ∀ key, key ∈ (Record.fromEntries (layout.panes.entries.map fun e =>
          (e.1,renamedPane fromPath toPath e.2))).keys ↔ key ∈ layout.panes.keys := by
        intro key
        simp [Record.mem_keys,get?_renamed]
      refine ⟨?_,valid.paneIdsDistinct,valid.splitIdsDistinct,?_,?_,?_⟩
      · intro key pane hit
        rw [get?_renamed] at hit
        obtain ⟨original,found',rfl⟩ := Option.map_eq_some_iff.mp hit
        exact (renamedPane_valid useful.1 useful.2.1 (valid.panes key original found')).1
      · exact fun key => (valid.leaves key).trans (keys key).symm
      · intro several key pane hit
        rw [get?_renamed] at hit
        obtain ⟨original,found',rfl⟩ := Option.map_eq_some_iff.mp hit
        exact (renamedPane_valid useful.1 useful.2.1 (valid.panes key original found')).2
          (valid.populated several key original found')
      · exact (keys _).mpr valid.activeExists

theorem renameFileInPane_missing {paneId : Text}
    (fromNamed : fromPath ≠ []) (valid : PaneValid paneId pane)
    (gone : ∀ file ∈ pane.openFiles, isAtOrUnder fromPath file = false) :
    renameFileInPane pane fromPath toPath = none := by
  have kept : ∀ file ∈ pane.openFiles, renamePathUnderPrefix file fromPath toPath = file :=
    fun file listed => renamePathUnderPrefix_other (gone file listed)
  have fs : dedupeFiles (pane.openFiles.map
      fun file => renamePathUnderPrefix file fromPath toPath) = pane.openFiles := by
    rw [(map_congr_left kept).trans (map_id' _),valid.files]
    exact Distinct.collect_collect isNamed _
  have active : renamePathUnderPrefix pane.activeFile fromPath toPath = pane.activeFile := by
    obtain empty | listed := valid.active
    · rw [empty]
      apply renamePathUnderPrefix_other
      cases fromPath with
      | nil => exact absurd rfl fromNamed
      | cons => simp [isAtOrUnder]
    · exact kept _ listed
  exact if_pos ⟨fs,active⟩

theorem renameFileEverywhere_missing (valid : Valid layout)
    (gone : ∀ paneId file, OpenIn layout paneId file → isAtOrUnder fromPath file = false) :
    renameFileEverywhere layout fromPath toPath = layout := by
  unfold renameFileEverywhere
  split
  case isTrue => rfl
  case isFalse useful =>
    rw [not_or] at useful
    apply if_neg
    rw [Bool.not_eq_true,any_eq_false]
    intro e mem
    have hit := (Record.get?_eq_some layout.panes e.1 e.2).mpr mem
    rw [renameFileInPane_missing useful.1 (valid.panes e.1 e.2 hit)
      fun file listed => gone e.1 file ⟨e.2,hit,listed⟩]
    simp

theorem removeFileEverywhere_valid (valid : Valid layout) (file : Text) : Valid (removeFileEverywhere layout file) := by
  unfold removeFileEverywhere
  split
  case isTrue => exact valid
  case isFalse =>
    generalize removalTargets layout file = targets
    induction targets generalizing layout with
    | nil => exact valid
    | cons tgt targets ih => exact ih (closeTab_valid valid tgt.1 tgt.2)

theorem removeFileEverywhere_missing
    (gone : ∀ paneId path, OpenIn layout paneId path → isAtOrUnder file path = false) :
    removeFileEverywhere layout file = layout := by
  have untouched : removalTargets layout file = [] := by
    rw [removalTargets,flatMap_eq_nil_iff]
    intro pane mem
    obtain ⟨paneId,-,hit⟩ := mem_filterMap.mp mem
    rw [map_eq_nil_iff,filter_eq_nil_iff]
    intro path listed
    simp [gone paneId path ⟨pane,hit,listed⟩]
  simp [removeFileEverywhere,untouched]

theorem single_valid (paneValid : PaneValid pane.id pane)
    (tree : layout.tree = .pane pane.id) (panes : layout.panes = Record.empty.set pane.id pane)
    (active : layout.activePaneId = pane.id) : Valid layout := by
  have leaves : editorLayoutPaneIds layout = [pane.id] := by
    simp [editorLayoutPaneIds,tree,paneIdsFromTree]
  have keys : ∀ key, key ∈ layout.panes.keys ↔ key = pane.id := by
    intro key
    rw [panes,Record.mem_keys_set]
    simp
  refine ⟨?_,by simp [leaves],by simp [tree,splitIdsFromTree],?_,by simp [leaves],by simp [keys,active]⟩
  · intro key pane' hit
    rw [panes,Record.get?_set] at hit
    split at hit
    case isTrue same =>
      cases hit
      exact same ▸ paneValid
    case isFalse => contradiction
  · intro key
    simp [leaves,keys]

theorem replaceRoot_valid (layout : EditorLayoutStateV2) (root : Text)
    (sidebarWidth : Option Number) : Valid (replaceRoot layout root sidebarWidth) :=
  single_valid (createPane_valid _ _ _) rfl (by simp [replaceRoot,paneRecordFrom]) rfl

end Paths

end Operations

def TargetsMissing (layout : EditorLayoutStateV2) : EditorLayoutAction → Prop
  | .openFile paneId _ => paneId ∉ layout.panes.keys
  | .selectFile paneId file => ¬ OpenIn layout paneId file
  | .closeTab paneId file => ¬ OpenIn layout paneId file
  | .closePane paneId => paneId ∉ layout.panes.keys
  | .setActivePane paneId => paneId ∉ layout.panes.keys
  | .reorderTab paneId file _ => ¬ OpenIn layout paneId file
  | .moveTab fromPaneId toPaneId file _ =>
    toPaneId ∉ layout.panes.keys ∨ ¬ OpenIn layout fromPaneId file
  | .dropTab intent =>
    intent.toPaneId ∉ layout.panes.keys ∨ ¬ OpenIn layout intent.fromPaneId intent.file
  | .splitPane paneId _ none => paneId ∉ layout.panes.keys
  | .splitPane paneId _ (some file) => ¬ OpenIn layout paneId file
  | .resizeSplit splitId _ => splitId ∉ splitIdsFromTree layout.tree
  | .renameFile fromPath _ =>
    ∀ paneId file, OpenIn layout paneId file → isAtOrUnder fromPath file = false
  | .removeFile path => ∀ paneId file, OpenIn layout paneId file → isAtOrUnder path file = false
  | .setSidebar _ _ => False
  | .setOutlinePanel _ => False
  | .replaceRoot _ _ => False

/-- The stale intents that the reducer acts on: a selection of a missing pane, or of a
file that another pane than the active one does not hold, and an edge drop onto a
missing pane. -/
def ActsOnMissing (layout : EditorLayoutStateV2) : EditorLayoutAction → Prop
  | .selectFile paneId file =>
    paneId ∉ layout.panes.keys ∨ (¬ OpenIn layout paneId file ∧ paneId ≠ layout.activePaneId)
  | .dropTab intent =>
    intent.zone ≠ .center ∧ OpenIn layout intent.fromPaneId intent.file ∧ intent.toPaneId ∉ layout.panes.keys
  | _ => False

section Reducer
variable {layout : EditorLayoutStateV2} {intent : EditorTabDragIntent} {action : EditorLayoutAction}
  {paneId file : Text}

theorem absent_of_not_openIn {pane : EditorPaneStateV2}
    (absent : ¬ OpenIn layout paneId file) (hit : layout.panes.get? paneId = some pane) :
    file ∉ pane.openFiles :=
  fun mem => absent ⟨pane,hit,mem⟩

theorem select_unopened (absent : ¬ OpenIn layout paneId file) :
    editorLayoutReducer layout (.selectFile paneId file) = { layout with activePaneId := paneId } := by
  cases hit : layout.panes.get? paneId with
  | none => exact updatePane_missing hit
  | some pane => exact updatePane_same hit (if_neg (absent_of_not_openIn absent hit))

theorem showOpened_valid (valid : Valid layout) (paneId file : Text) (arrange : EditorPaneStateV2 → List Text) :
    Valid (updatePane layout paneId fun pane =>
      if file ∈ pane.openFiles then withPaneFiles pane (arrange pane) file else pane) := by
  apply updatePane_valid valid
  intro pane hit
  have paneValid := valid.panes paneId pane hit
  split
  case isTrue opened =>
    refine ⟨withPaneFiles_valid paneValid.named _ _,fun _ => ?_⟩
    exact ne_nil_of_mem ((mem_withPaneFiles _ _ _ file).mpr ⟨paneValid.file_named opened,.inr rfl⟩)
  case isFalse => exact ⟨paneValid,fun several => valid.populated several paneId pane hit⟩

theorem openFile_valid (valid : Valid layout) (paneId file : Text) :
    Valid (editorLayoutReducer layout (.openFile paneId file)) := by
  apply updatePane_valid valid
  intro pane hit
  have paneValid := valid.panes paneId pane hit
  refine ⟨withPaneFiles_valid paneValid.named _ _,fun several => ?_⟩
  obtain ⟨e,listed⟩ := exists_mem_of_ne_nil _ (valid.populated several paneId pane hit)
  have named := paneValid.file_named listed
  apply ne_nil_of_mem ((mem_withPaneFiles _ _ _ e).mpr ⟨named,.inl _⟩)
  exact (mem_orderedFiles _ _ _ _).mpr ⟨named,.inr (.inl listed)⟩

theorem editorLayoutReducer_valid (valid : Valid layout) (action : EditorLayoutAction)
    (selects : ∀ paneId file, action = .selectFile paneId file → paneId ∈ layout.panes.keys) :
    Valid (editorLayoutReducer layout action) := by
  cases action with
  | openFile paneId file => exact openFile_valid valid paneId file
  | selectFile paneId file =>
    have focused : Valid { layout with activePaneId := paneId } :=
      { valid with activeExists := selects paneId file rfl }
    exact showOpened_valid focused paneId file EditorPaneStateV2.openFiles
  | closeTab paneId file => exact closeTab_valid valid paneId file
  | closePane paneId => exact removePane_valid valid paneId
  | setActivePane paneId =>
    rw [editorLayoutReducer]
    split
    case isTrue => exact valid
    case isFalse here =>
      refine { valid with activeExists := ?_ }
      by_contra gone
      exact here ((Record.get?_eq_none _ _).mpr gone)
  | reorderTab paneId file targetIndex =>
    exact showOpened_valid valid paneId file fun pane =>
      insertFile pane.tabOrder file (some targetIndex)
  | moveTab fromPaneId toPaneId file targetIndex => exact moveTab_valid valid _ _ _ _
  | dropTab intent => exact reduceDropTab_valid valid intent
  | splitPane paneId direction file => exact splitPane_valid valid _ _ _ _
  | resizeSplit splitId ratio =>
    refine ⟨valid.panes,?_,?_,?_,?_,valid.activeExists⟩
    · simpa [editorLayoutReducer,editorLayoutPaneIds] using valid.paneIdsDistinct
    · simpa [editorLayoutReducer] using valid.splitIdsDistinct
    · simpa [editorLayoutReducer,editorLayoutPaneIds] using valid.leaves
    · simpa [editorLayoutReducer,editorLayoutPaneIds] using valid.populated
  | setSidebar width collapsed => exact { valid with }
  | setOutlinePanel visible => exact { valid with }
  | replaceRoot root sidebarWidth => exact replaceRoot_valid layout root sidebarWidth
  | renameFile fromPath toPath => exact renameFileEverywhere_valid valid fromPath toPath
  | removeFile file => exact removeFileEverywhere_valid valid file

theorem moveTab_missing {fromPaneId toPaneId : Text} (targetIndex : Option Number)
    (gone : toPaneId ∉ layout.panes.keys ∨ ¬ OpenIn layout fromPaneId file) :
    moveTab layout fromPaneId toPaneId file targetIndex = layout := by
  rw [← Record.get?_eq_none] at gone
  obtain same | ⟨pane,rfl,hit,opened,-⟩ | ⟨fromPane,toPane,-,hit,found',opened,-⟩ :=
    moveTab_cases layout fromPaneId toPaneId file targetIndex
  · exact same
  · obtain none_there | absent := gone
    · simp [hit] at none_there
    · exact absurd ⟨pane,hit,opened⟩ absent
  · obtain none_there | absent := gone
    · simp [found'] at none_there
    · exact absurd ⟨fromPane,hit,opened⟩ absent

theorem splitPane_missing {file : Option Text} (direction : EditorSplitDirection) (before : Bool)
    (gone : paneId ∉ layout.panes.keys ∨ ∃ path ∈ file, ¬ OpenIn layout paneId path) :
    splitPane layout paneId direction file before = layout := by
  rw [← Record.get?_eq_none] at gone
  obtain same | ⟨pane,activeFile,hit,chosen,-,opened,-⟩ :=
    splitPane_cases layout paneId direction file before
  · exact same
  · obtain none_there | ⟨path,given,absent⟩ := gone
    · simp [hit] at none_there
    · rw [Option.mem_def.mp given,Option.getD_some] at chosen
      exact absurd ⟨pane,hit,chosen ▸ opened⟩ absent

theorem reduceDropTab_center (center : intent.zone = .center) :
    reduceDropTab layout intent = moveTab layout intent.fromPaneId intent.toPaneId intent.file intent.targetIndex :=
  if_pos center

theorem reduceDropTab_edge (edge : intent.zone ≠ .center) :
    (¬ OpenIn layout intent.fromPaneId intent.file ∧ reduceDropTab layout intent = layout) ∨
    (OpenIn layout intent.fromPaneId intent.file ∧ intent.fromPaneId = intent.toPaneId ∧
      reduceDropTab layout intent = splitPane layout intent.toPaneId (dropDirection intent.zone)
        (some intent.file) (dropBefore intent.zone)) ∨
    (OpenIn layout intent.fromPaneId intent.file ∧ intent.fromPaneId ≠ intent.toPaneId ∧
      reduceDropTab layout intent = insertSplitPane (closeTab layout intent.fromPaneId intent.file) intent.toPaneId
        (dropDirection intent.zone) intent.file (dropBefore intent.zone)) := by
  unfold reduceDropTab
  rw [if_neg edge]
  cases hit : layout.panes.get? intent.fromPaneId with
  | none => exact .inl ⟨by simp [OpenIn,hit],rfl⟩
  | some pane =>
    by_cases opened : intent.file ∈ pane.openFiles
    · apply Or.inr
      by_cases same : intent.fromPaneId = intent.toPaneId
      · exact .inl ⟨⟨pane,hit,opened⟩,same,by simp [opened,same]⟩
      · exact .inr ⟨⟨pane,hit,opened⟩,same,by simp [opened,same]⟩
    · exact .inl ⟨by simp [OpenIn,hit,opened],if_pos opened⟩

theorem reduceDropTab_stray (edge : intent.zone ≠ .center)
    (opened : OpenIn layout intent.fromPaneId intent.file)
    (gone : intent.toPaneId ∉ layout.panes.keys) :
    intent.fromPaneId ≠ intent.toPaneId ∧
      reduceDropTab layout intent = closeTab layout intent.fromPaneId intent.file := by
  have other : intent.fromPaneId ≠ intent.toPaneId := by
    intro same
    obtain ⟨pane,hit,-⟩ := opened
    exact gone (same ▸ (Record.mem_keys _ _).mpr ⟨pane,hit⟩)
  obtain ⟨absent,-⟩ | ⟨-,same,-⟩ | ⟨-,-,res⟩ := reduceDropTab_edge edge
  · exact absurd opened absent
  · exact absurd same other
  · refine ⟨other,res.trans (insertSplitPane_missing ?_)⟩
    rw [closeTab_get?_other layout intent.file (Ne.symm other)]
    exact (Record.get?_eq_none _ _).mpr gone

theorem reduceDropTab_missing (gone : intent.toPaneId ∉ layout.panes.keys ∨
      ¬ OpenIn layout intent.fromPaneId intent.file)
    (heeded : ¬ ActsOnMissing layout (.dropTab intent)) :
    reduceDropTab layout intent = layout := by
  by_cases center : intent.zone = .center
  · rw [reduceDropTab_center center]
    exact moveTab_missing intent.targetIndex gone
  · have idle : ¬ OpenIn layout intent.fromPaneId intent.file :=
      fun opened => heeded ⟨center,opened,gone.resolve_right (not_not.mpr opened)⟩
    obtain ⟨-,same⟩ | ⟨opened,-⟩ | ⟨opened,-⟩ := reduceDropTab_edge center
    · exact same
    · exact absurd opened idle
    · exact absurd opened idle

theorem editorLayoutReducer_missing (valid : Valid layout)
    (gone : TargetsMissing layout action) (heeded : ¬ ActsOnMissing layout action) :
    editorLayoutReducer layout action = layout := by
  have none_there : ∀ {paneId : Text}, paneId ∉ layout.panes.keys →
      layout.panes.get? paneId = none := fun absent => (Record.get?_eq_none _ _).mpr absent
  cases action with
  | openFile paneId file => exact updatePane_missing (none_there gone)
  | selectFile paneId file =>
    have same : paneId = layout.activePaneId := by
      by_contra other
      exact heeded (.inr ⟨gone,other⟩)
    rw [select_unopened gone,same]
  | closeTab paneId file => exact closeTab_absent gone
  | closePane paneId => exact if_pos (.inl (none_there gone))
  | setActivePane paneId => exact if_pos (none_there gone)
  | reorderTab paneId file targetIndex =>
    cases hit : layout.panes.get? paneId with
    | none => exact updatePane_missing hit
    | some pane => exact updatePane_same hit (if_neg (absent_of_not_openIn gone hit))
  | moveTab fromPaneId toPaneId file targetIndex => exact moveTab_missing targetIndex gone
  | dropTab intent => exact reduceDropTab_missing gone heeded
  | splitPane paneId direction file =>
    apply splitPane_missing
    cases file with
    | none => exact .inl gone
    | some file => exact .inr ⟨file,rfl,gone⟩
  | resizeSplit splitId ratio =>
    rw [editorLayoutReducer,resizeSplitNode_absent ratio gone]
  | setSidebar width collapsed => exact gone.elim
  | setOutlinePanel visible => exact gone.elim
  | replaceRoot root sidebarWidth => exact gone.elim
  | renameFile fromPath toPath => exact renameFileEverywhere_missing valid gone
  | removeFile file => exact removeFileEverywhere_missing gone

theorem actsOnMissing_changes (valid : Valid layout) (stray : ActsOnMissing layout action) :
    TargetsMissing layout action ∧ editorLayoutReducer layout action ≠ layout := by
  cases action with
  | selectFile paneId file =>
    have absent : ¬ OpenIn layout paneId file := by
      obtain gone | ⟨absent,-⟩ := stray
      · intro opened
        obtain ⟨pane,hit,-⟩ := opened
        exact gone ((Record.mem_keys _ _).mpr ⟨pane,hit⟩)
      · exact absent
    have other : paneId ≠ layout.activePaneId := by
      obtain gone | ⟨-,other⟩ := stray
      · intro same
        exact gone (same ▸ valid.activeExists)
      · exact other
    refine ⟨absent,?_⟩
    rw [select_unopened absent]
    intro same
    exact other (congrArg EditorLayoutStateV2.activePaneId same)
  | dropTab intent =>
    obtain ⟨edge,opened,gone⟩ := stray
    refine ⟨.inl gone,?_⟩
    rw [editorLayoutReducer,(reduceDropTab_stray edge opened gone).2]
    intro same
    have closed := openIn_closeTab valid intent.fromPaneId intent.file intent.fromPaneId intent.file
    rw [same] at closed
    exact (closed.mp opened).2 ⟨rfl,rfl⟩
  | _ => exact stray.elim

/-- From a valid layout, an action gives a valid layout and does nothing to targets that
are missing exactly when it is none of the stale selections and edge drops. -/
theorem editorLayoutReducer_lawful_iff (layout : EditorLayoutStateV2) (valid : Valid layout)
    (action : EditorLayoutAction) :
    (Valid (editorLayoutReducer layout action) ∧
      (TargetsMissing layout action → editorLayoutReducer layout action = layout)) ↔
    ¬ ActsOnMissing layout action := by
  constructor
  · intro lawful stray
    obtain ⟨missing,changed⟩ := actsOnMissing_changes valid stray
    exact changed (lawful.2 missing)
  · intro heeded
    refine ⟨editorLayoutReducer_valid valid action ?_,
      fun missing => editorLayoutReducer_missing valid missing heeded⟩
    intro paneId file selects
    subst selects
    by_contra missing
    exact heeded (.inl missing)

end Reducer

def onePaneLayout (file : Text) : EditorLayoutStateV2 :=
  let pane := createPane (paneName 1) file [file]
  { root := "/repo".toList
    activePaneId := pane.id
    tree := .pane pane.id
    panes := Record.empty.set pane.id pane
    sidebarWidth := 280
    sidebarCollapsed := false
    outlinePanelVisible := true }

theorem onePaneLayout_valid (file : Text) : Valid (onePaneLayout file) :=
  single_valid (createPane_valid _ _ _) rfl rfl rfl

theorem editorLayoutReducer_lawful_iff_closeTab :
    (Valid (editorLayoutReducer (onePaneLayout ['a']) (.closeTab (paneName 1) ['a'])) ∧
      (TargetsMissing (onePaneLayout ['a']) (.closeTab (paneName 1) ['a']) →
        editorLayoutReducer (onePaneLayout ['a']) (.closeTab (paneName 1) ['a']) =
          onePaneLayout ['a'])) ↔
    ¬ ActsOnMissing (onePaneLayout ['a']) (.closeTab (paneName 1) ['a']) :=
  editorLayoutReducer_lawful_iff (onePaneLayout ['a']) (onePaneLayout_valid ['a'])
    (.closeTab (paneName 1) ['a'])

/-- Selecting a file of the missing pane `pane-9` leaves a layout whose active pane
does not exist. -/
theorem editorLayoutReducer_not_lawful :
    ¬ ∀ layout action, Valid layout →
      Valid (editorLayoutReducer layout action) ∧
        (TargetsMissing layout action → editorLayoutReducer layout action = layout) := by
  intro lawful
  have broken := (lawful (onePaneLayout ['a']) (.selectFile (paneName 9) ['a'])
    (onePaneLayout_valid ['a'])).1.activeExists
  revert broken
  decide

end Keiko.EditorLayout
