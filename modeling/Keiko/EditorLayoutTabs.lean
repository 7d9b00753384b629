import Keiko.EditorLayoutInvariant

/-! Which files are open over all panes, and what becomes of them when tabs and
panes are rearranged. -/
namespace Keiko.EditorLayout
open Keiko.Library Option

def Rearranges : EditorLayoutAction → Prop
  | .reorderTab _ _ _ => True
  | .moveTab _ _ _ _ => True
  | .dropTab _ => True
  | .splitPane _ _ _ => True
  | .resizeSplit _ _ => True
  | .selectFile _ _ => True
  | .setActivePane _ => True
  | _ => False

def LosesTab (layout : EditorLayoutStateV2) : EditorLayoutAction → Prop
  | .dropTab intent =>
    intent.zone ≠ .center ∧ OpenIn layout intent.fromPaneId intent.file ∧ intent.toPaneId ∉ layout.panes.keys ∧
      ∀ paneId, paneId ≠ intent.fromPaneId → ¬ OpenIn layout paneId intent.file
  | _ => False

def OpenSomewhere (layout : EditorLayoutStateV2) (file : Text) : Prop :=
  ∃ paneId, OpenIn layout paneId file

variable {layout : EditorLayoutStateV2} {action : EditorLayoutAction} {fromPaneId toPaneId f id : Text}

theorem mem_editorLayoutOpenFiles (valid : Valid layout) (f : Text) :
    f ∈ editorLayoutOpenFiles layout ↔ OpenSomewhere layout f := by
  simp only [editorLayoutOpenFiles,Distinct.mem_collect,isNamed_iff,List.not_mem_nil,false_or,
    List.mem_flatMap,editorLayoutPanes,List.mem_filterMap]
  constructor
  · intro listed
    obtain ⟨-,p,⟨id,-,hit⟩,mem⟩ := listed
    exact ⟨id,p,hit,mem⟩
  · intro opened
    obtain ⟨id,p,hit,mem⟩ := opened
    exact ⟨valid.file_named ⟨p,hit,mem⟩,p,⟨id,valid.leaf_of_get? hit,hit⟩,mem⟩

theorem openIn_showTab (valid : Valid layout) {p : EditorPaneStateV2}
    (hit : layout.panes.get? id = some p) (named : f ≠ []) (i : Option Number) (key e : Text) :
    OpenIn (updatePane layout id fun cur =>
      withPaneFiles cur (insertFile cur.tabOrder f i) f) key e ↔
    OpenIn layout key e ∨ (key = id ∧ e = f) := by
  have paneValid := valid.panes id p hit
  rw [openIn_updatePane hit]
  split
  case isTrue same =>
    subst same
    have inPane : OpenIn layout key e ↔ e ∈ p.openFiles := by
      simp [OpenIn,mem_def.mp hit]
    rw [inPane,mem_withPaneFiles,mem_insertFile]
    constructor
    · intro shown
      obtain ⟨entryNamed,(same | listed) | same⟩ := shown
      · exact .inr ⟨rfl,same⟩
      · exact .inl ((paneValid.mem_tabOrder entryNamed).mp listed)
      · exact .inr ⟨rfl,same⟩
    · intro either
      obtain opened | ⟨-,rfl⟩ := either
      · have entryNamed := paneValid.file_named opened
        exact ⟨entryNamed,.inl (.inr ((paneValid.mem_tabOrder entryNamed).mpr opened))⟩
      · exact ⟨named,.inr rfl⟩
  case isFalse other => simp [other]

theorem openIn_of_opened (opened : OpenIn layout id f) (key e : Text) :
    OpenIn layout key e ∨ (key = id ∧ e = f) ↔ OpenIn layout key e := by
  apply or_iff_left_of_imp
  intro same
  obtain ⟨rfl,rfl⟩ := same
  exact opened

theorem openSomewhere_rehomed {next : EditorLayoutStateV2} (opened : OpenIn layout fromPaneId f)
    (rehomed : ∀ key e, OpenIn next key e ↔ (OpenIn layout key e ∧ ¬(key = fromPaneId ∧ e = f)) ∨
        (key = toPaneId ∧ e = f)) (e : Text) :
    OpenSomewhere next e ↔ OpenSomewhere layout e := by
  constructor
  · intro shown
    obtain ⟨key,shown⟩ := shown
    obtain ⟨kept,-⟩ | ⟨-,rfl⟩ := (rehomed key e).mp shown
    · exact ⟨key,kept⟩
    · exact ⟨fromPaneId,opened⟩
  · intro shown
    obtain ⟨key,shown⟩ := shown
    by_cases same : e = f
    · exact ⟨toPaneId,(rehomed toPaneId e).mpr (.inr ⟨rfl,same⟩)⟩
    · exact ⟨key,(rehomed key e).mpr (.inl ⟨shown,fun gone => same gone.2⟩)⟩

theorem openSomewhere_moveTab (valid : Valid layout) (fromPaneId toPaneId f : Text)
    (targetIndex : Option Number) (e : Text) :
    OpenSomewhere (moveTab layout fromPaneId toPaneId f targetIndex) e ↔ OpenSomewhere layout e := by
  obtain same | ⟨p,-,hit,opened,res⟩ |
      ⟨fromPane,toPane,other,hit,found',opened,res⟩ :=
    moveTab_cases layout fromPaneId toPaneId f targetIndex
  · rw [same]
  · rw [res]
    apply exists_congr
    intro key
    rw [openIn_showTab valid hit ((valid.panes toPaneId p hit).file_named opened)]
    exact openIn_of_opened ⟨p,hit,opened⟩ key e
  · have named := (valid.panes fromPaneId fromPane hit).file_named opened
    have still : (closeTab layout fromPaneId f).panes.get? toPaneId = some toPane := by
      rw [closeTab_get?_other layout f (Ne.symm other),found']
    rw [res]
    apply openSomewhere_rehomed ⟨fromPane,hit,opened⟩
    intro key e
    change OpenIn (updatePane (closeTab layout fromPaneId f) toPaneId _) key e ↔ _
    rw [openIn_showTab (closeTab_valid valid fromPaneId f) still named,openIn_closeTab valid]

theorem openSomewhere_splitOff (valid : Valid layout)
    {tgt : EditorPaneStateV2} (opened : OpenIn layout fromPaneId f)
    (hit : (closeTab layout fromPaneId f).panes.get? toPaneId = some tgt)
    (direction : EditorSplitDirection) (pre : Bool) (e : Text) :
    OpenSomewhere (insertSplitPane (closeTab layout fromPaneId f) toPaneId direction f pre)
      e ↔ OpenSomewhere layout e := by
  apply openSomewhere_rehomed opened
  intro key e
  rw [openIn_insertSplitPane hit (valid.file_named opened),openIn_closeTab valid]

theorem openSomewhere_splitPane (valid : Valid layout) (id : Text)
    (direction : EditorSplitDirection) (f : Option Text) (pre : Bool) (e : Text) :
    OpenSomewhere (splitPane layout id direction f pre) e ↔ OpenSomewhere layout e := by
  obtain same | ⟨p,activeFile,hit,-,-,opened,rest,res⟩ :=
    splitPane_cases layout id direction f pre
  · rw [same]
  · obtain ⟨next,still,-⟩ := closeTab_keeps_pane valid hit rest
    rw [res]
    exact openSomewhere_splitOff valid ⟨p,hit,opened⟩ still direction pre e

theorem openSomewhere_stray (valid : Valid layout) {intent : EditorTabDragIntent}
    (edge : intent.zone ≠ .center) (opened : OpenIn layout intent.fromPaneId intent.file)
    (missing : intent.toPaneId ∉ layout.panes.keys) :
    (∀ e, OpenSomewhere (reduceDropTab layout intent) e ↔ OpenSomewhere layout e) ↔
      ∃ id, id ≠ intent.fromPaneId ∧ OpenIn layout id intent.file := by
  rw [(reduceDropTab_stray edge opened missing).2]
  constructor
  · intro kept
    obtain ⟨key,shown⟩ := (kept intent.file).mpr ⟨intent.fromPaneId,opened⟩
    obtain ⟨shown,elsewhere⟩ := (openIn_closeTab valid _ _ _ _).mp shown
    exact ⟨key,fun same => elsewhere ⟨same,rfl⟩,shown⟩
  · intro other e
    obtain ⟨id,elsewhere,shown⟩ := other
    apply openSomewhere_rehomed opened
    intro key e
    rw [openIn_closeTab valid]
    symm
    apply or_iff_left_of_imp
    intro same
    obtain ⟨rfl,rfl⟩ := same
    exact ⟨shown,fun gone => elsewhere gone.1⟩

theorem openSomewhere_reduceDropTab (valid : Valid layout) (intent : EditorTabDragIntent) :
    (∀ e, OpenSomewhere (reduceDropTab layout intent) e ↔ OpenSomewhere layout e) ↔
      ¬ LosesTab layout (.dropTab intent) := by
  by_cases center : intent.zone = .center
  · rw [reduceDropTab_center center]
    exact iff_of_true (openSomewhere_moveTab valid _ _ _ _) fun loses => loses.1 center
  by_cases opened : OpenIn layout intent.fromPaneId intent.file
  · cases hit : layout.panes.get? intent.toPaneId with
    | none =>
      have gone := (Record.get?_eq_none _ _).mp hit
      rw [openSomewhere_stray valid center opened gone]
      simp [LosesTab,center,opened,gone]
    | some toPane =>
      have here := (Record.mem_keys _ _).mpr ⟨toPane,hit⟩
      refine iff_of_true ?_ fun loses => loses.2.2.1 here
      intro e
      obtain ⟨absent,-⟩ | ⟨-,-,res⟩ | ⟨-,other,res⟩ := reduceDropTab_edge center
      · exact absurd opened absent
      · rw [res]
        exact openSomewhere_splitPane valid _ _ _ _ e
      · have still : (closeTab layout intent.fromPaneId intent.file).panes.get? intent.toPaneId = some toPane := by
          rw [closeTab_get?_other layout intent.file (Ne.symm other),hit]
        rw [res]
        exact openSomewhere_splitOff valid opened still _ _ e
  · refine iff_of_true ?_ fun loses => opened loses.2.1
    intro e
    obtain ⟨-,same⟩ | ⟨there,-⟩ | ⟨there,-⟩ := reduceDropTab_edge center
    · rw [same]
    · exact absurd there opened
    · exact absurd there opened

theorem openSomewhere_selectFile (valid : Valid layout) (id f e : Text) :
    OpenSomewhere (editorLayoutReducer layout (.selectFile id f)) e ↔ OpenSomewhere layout e := by
  by_cases opened : OpenIn layout id f
  · apply exists_congr
    intro key
    obtain ⟨p,hit,mem⟩ := opened
    have paneValid := valid.panes id p hit
    have focused : { layout with activePaneId := id }.panes.get? id = some p := hit
    rw [editorLayoutReducer,openIn_updatePane focused,if_pos mem]
    split
    case isTrue same =>
      subst same
      simp only [OpenIn,mem_def.mp hit,mem_withPaneFiles]
      constructor
      · intro shown
        obtain ⟨-,listed | rfl⟩ := shown
        · exact ⟨p,rfl,listed⟩
        · exact ⟨p,rfl,mem⟩
      · intro shown
        obtain ⟨cur,same,listed⟩ := shown
        obtain rfl : p = cur := some.inj same
        exact ⟨paneValid.file_named listed,.inl listed⟩
    case isFalse => rfl
  · rw [select_unopened opened]
    rfl

theorem openSomewhere_reorderTab (valid : Valid layout) (paneId f : Text) (targetIndex : Number) (e : Text) :
    OpenSomewhere (editorLayoutReducer layout (.reorderTab paneId f targetIndex)) e ↔
      OpenSomewhere layout e := by
  by_cases opened : OpenIn layout paneId f
  · have same : editorLayoutReducer layout (.reorderTab paneId f targetIndex) =
        moveTab layout paneId paneId f (some targetIndex) := by
      obtain ⟨p,hit,mem⟩ := opened
      rw [editorLayoutReducer,updatePane_found hit,if_pos mem]
      simp [moveTab,mem_def.mp hit,mem,updatePane]
    rw [same]
    exact openSomewhere_moveTab valid _ _ _ _ e
  · have gone : TargetsMissing layout (.reorderTab paneId f targetIndex) := opened
    rw [editorLayoutReducer_missing valid gone id]

theorem openSomewhere_rearranged_iff (valid : Valid layout) (rearranges : Rearranges action) :
    (∀ f, OpenSomewhere (editorLayoutReducer layout action) f ↔
      OpenSomewhere layout f) ↔ ¬ LosesTab layout action := by
  cases action with
  | selectFile paneId f => exact iff_of_true (openSomewhere_selectFile valid paneId f) id
  | setActivePane paneId =>
    refine iff_of_true (fun f => ?_) id
    rw [editorLayoutReducer]
    split <;> rfl
  | reorderTab paneId f targetIndex =>
    exact iff_of_true (openSomewhere_reorderTab valid paneId f targetIndex) id
  | moveTab fromPaneId toPaneId f targetIndex =>
    exact iff_of_true (openSomewhere_moveTab valid fromPaneId toPaneId f targetIndex) id
  | dropTab intent => exact openSomewhere_reduceDropTab valid intent
  | splitPane paneId direction f =>
    exact iff_of_true (openSomewhere_splitPane valid paneId direction f false) id
  | resizeSplit splitId ratio => exact iff_of_true (fun _ => Iff.rfl) id
  | _ => exact rearranges.elim

theorem openFiles_reducer_iff (valid : Valid layout) (rearranges : Rearranges action) (f : Text) :
    (f ∈ editorLayoutOpenFiles (editorLayoutReducer layout action) ↔ f ∈ editorLayoutOpenFiles layout) ↔
    (OpenSomewhere (editorLayoutReducer layout action) f ↔ OpenSomewhere layout f) := by
  by_cases dangling : ∃ id f, action = .selectFile id f ∧ id ∉ layout.panes.keys
  · -- The result is no valid layout here, but it differs in its active pane only.
    obtain ⟨id,selected,rfl,gone⟩ := dangling
    have unopened : ¬ OpenIn layout id selected := by
      intro opened
      obtain ⟨p,hit,-⟩ := opened
      exact gone ((Record.mem_keys _ _).mpr ⟨p,hit⟩)
    refine iff_of_true ?_ (openSomewhere_selectFile valid id selected f)
    rw [select_unopened unopened]
    rfl
  · have lawful : Valid (editorLayoutReducer layout action) := by
      apply editorLayoutReducer_valid valid
      intro id selected selects
      by_contra gone
      exact dangling ⟨id,selected,selects,gone⟩
    rw [mem_editorLayoutOpenFiles lawful,mem_editorLayoutOpenFiles valid]

/-- Rearranging a valid layout keeps the set of open files exactly when no tab is
dropped onto the edge of a missing pane while no other pane shows its file. -/
theorem openFiles_rearranged_iff (layout : EditorLayoutStateV2) (valid : Valid layout)
    (action : EditorLayoutAction) (rearranges : Rearranges action) :
    (∀ file, file ∈ editorLayoutOpenFiles (editorLayoutReducer layout action) ↔
      file ∈ editorLayoutOpenFiles layout) ↔ ¬ LosesTab layout action := by
  rw [← openSomewhere_rearranged_iff valid rearranges]
  exact forall_congr' (openFiles_reducer_iff valid rearranges)

theorem openFiles_rearranged_iff_splitPane :
    (∀ file, file ∈ editorLayoutOpenFiles
        (editorLayoutReducer (onePaneLayout ['a']) (.splitPane (paneName 1) .row none)) ↔
      file ∈ editorLayoutOpenFiles (onePaneLayout ['a'])) ↔
    ¬ LosesTab (onePaneLayout ['a']) (.splitPane (paneName 1) .row none) :=
  openFiles_rearranged_iff (onePaneLayout ['a']) (onePaneLayout_valid ['a'])
    (.splitPane (paneName 1) .row none) trivial

/-- Dropping the tab `a` of the only pane onto the left edge of the missing `pane-9` closes it. -/
theorem openFiles_not_kept :
    ¬ ∀ layout action, Valid layout → Rearranges action →
      ∀ file, file ∈ editorLayoutOpenFiles (editorLayoutReducer layout action) ↔
        file ∈ editorLayoutOpenFiles layout := by
  intro kept
  have lost := (kept (onePaneLayout ['a'])
    (.dropTab ⟨['a'],paneName 1,paneName 9,.left,none⟩) (onePaneLayout_valid ['a']) trivial
    ['a']).mpr (by decide)
  revert lost
  decide

end Keiko.EditorLayout
