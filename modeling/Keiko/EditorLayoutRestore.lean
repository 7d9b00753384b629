import Keiko.EditorLayoutInvariant
import Keiko.EditorLayoutPersistence

/-! When a restored layout satisfies the invariant. The panes of a restored layout
are valid one by one; what can fail is the agreement of tree and pane record, and
it fails exactly on records that name a kept pane or split twice or, in version 1,
hold panes that the two leaves of the tree do not show. -/
namespace Keiko.EditorLayout
open Keiko.Library List Option Json

section Kept

structure KeptIds where
  leaves : List Text
  splits : List Text

variable (usable : Text → Bool)

def keptSplit (value : Json.Fields) (first second : KeptIds) : KeptIds :=
  let splits := first.splits ++ second.splits
  ⟨first.leaves ++ second.leaves,if first.leaves = [] ∨ second.leaves = [] then splits
    else namedField value "id".toList (splitName 1) :: splits⟩

mutual
/-- A pane node is kept when it names a usable pane, a split node when both of its
children keep one; an unnamed split is `split-1`. -/
def keptIds : Json → KeptIds
  | .object fields =>
    if Json.text? (Json.field fields "type".toList) = some "pane".toList then
      match Json.text? (Json.field fields "paneId".toList) with
      | some paneId => if usable paneId then ⟨[paneId],[]⟩ else ⟨[],[]⟩
      | none => ⟨[],[]⟩
    else if Json.text? (Json.field fields "type".toList) = some "split".toList then
      keptSplit fields (keptChildIds "first".toList fields) (keptChildIds "second".toList fields)
    else ⟨[],[]⟩
  | _ => ⟨[],[]⟩
def keptChildIds (name : Text) : List (Text × Json) → KeptIds
  | [] => ⟨[],[]⟩
  | (key,value) :: fields => if key = name then keptIds value else keptChildIds name fields
end

def usableIn (panes : Record EditorPaneStateV2) (paneId : Text) : Bool :=
  isSafePaneId paneId && hasResolvablePane panes paneId

theorem usable_owned {panes : Record EditorPaneStateV2} {id : Text}
    (usable : usableIn panes id = true) : id ∈ panes.keys :=
  (Record.mem_keys _ _).mpr (isSome_iff_exists.mp ((Bool.and_eq_true _ _).mp usable).2)

structure Keeps (panes : Record EditorPaneStateV2) (kept : KeptIds)
    (tree : Option EditorLayoutNode) : Prop where
  leaves : tree.elim [] paneIdsFromTree = kept.leaves
  splits : tree.elim [] splitIdsFromTree = kept.splits
  usable : ∀ paneId ∈ kept.leaves, usableIn panes paneId = true

variable {panes : Record EditorPaneStateV2} {right left : Option EditorLayoutNode}

theorem keeps_nothing : Keeps panes ⟨[],[]⟩ none := ⟨rfl,rfl,by simp⟩

theorem Keeps.none_iff {kept : KeptIds} {tree : Option EditorLayoutNode}
    (keeps : Keeps panes kept tree) : kept.leaves = [] ↔ tree = none := by
  rw [← keeps.leaves]
  cases tree with
  | none => simp
  | some tree => simp [paneIdsFromTree_ne_nil]

theorem Keeps.split {v : Json.Fields} {a b : KeptIds} (keepsLeft : Keeps panes a left)
    (keepsRight : Keeps panes b right)
    (split : Json.text? (Json.field v "type".toList) = some "split".toList) :
    Keeps panes (keptSplit v a b) (normalizeSplitNode v left right) := by
  have usable : ∀ id ∈ (keptSplit v a b).leaves, usableIn panes id = true := by
    intro id mem
    exact (mem_append.mp mem).elim (keepsLeft.usable id) (keepsRight.usable id)
  unfold normalizeSplitNode
  rw [if_pos split]
  cases left with
  | none =>
    have empty : a.leaves = [] := keepsLeft.none_iff.mpr rfl
    refine ⟨?_,?_,usable⟩
    · simp [keptSplit,empty,← keepsRight.leaves]
    · simp [keptSplit,empty,← keepsLeft.splits,← keepsRight.splits]
  | some left =>
    have full : a.leaves ≠ [] := fun empty => by simpa using keepsLeft.none_iff.mp empty
    cases right with
    | none =>
      have empty : b.leaves = [] := keepsRight.none_iff.mpr rfl
      refine ⟨?_,?_,usable⟩
      · simp [keptSplit,empty,← keepsLeft.leaves]
      · simp [keptSplit,empty,← keepsLeft.splits,← keepsRight.splits]
    | some right =>
      have full' : b.leaves ≠ [] := fun empty => by simpa using keepsRight.none_iff.mp empty
      refine ⟨?_,?_,usable⟩
      · simp [keptSplit,paneIdsFromTree,← keepsLeft.leaves,← keepsRight.leaves]
      · simp [keptSplit,splitIdsFromTree,full,full',← keepsLeft.splits,← keepsRight.splits]

theorem keeps_object (fields : Json.Fields) {first second : KeptIds} (keepsLeft : Keeps panes first left)
    (keepsRight : Keeps panes second right) :
    Keeps panes
      (if Json.text? (Json.field fields "type".toList) = some "pane".toList then
        match Json.text? (Json.field fields "paneId".toList) with
        | some paneId => if usableIn panes paneId then ⟨[paneId],[]⟩ else ⟨[],[]⟩
        | none => ⟨[],[]⟩
      else if Json.text? (Json.field fields "type".toList) = some "split".toList then
        keptSplit fields first second
      else ⟨[],[]⟩)
      ((normalizePaneNode fields panes).or (normalizeSplitNode fields left right)) := by
  unfold normalizePaneNode
  by_cases pane : text? (field fields "type".toList) = some "pane".toList
  · have noSplit : normalizeSplitNode fields left right = none := by
      unfold normalizeSplitNode
      rw [pane]
      exact if_neg (by decide)
    rw [if_pos pane,if_pos pane,noSplit,or_none]
    cases text? (field fields "paneId".toList) with
    | none => exact keeps_nothing
    | some paneId =>
      dsimp only
      by_cases usable : usableIn panes paneId = true
      · rw [if_pos usable,if_pos (by exact usable)]
        exact ⟨rfl,rfl,by simpa using usable⟩
      · rw [if_neg usable,if_neg (by exact usable)]
        exact keeps_nothing
  · rw [if_neg pane,if_neg pane,none_or]
    by_cases split : text? (field fields "type".toList) = some "split".toList
    · rw [if_pos split]
      exact keepsLeft.split keepsRight split
    · unfold normalizeSplitNode
      rw [if_neg split,if_neg split]
      exact keeps_nothing

mutual
theorem normalizeTree_keeps : ∀ v : Json, Keeps panes (keptIds (usableIn panes) v) (normalizeTree panes v)
  | .null => by rw [keptIds,normalizeTree]; exact keeps_nothing; all_goals simp
  | .bool _ => by rw [keptIds,normalizeTree]; exact keeps_nothing; all_goals simp
  | .number _ => by rw [keptIds,normalizeTree]; exact keeps_nothing; all_goals simp
  | .string _ => by rw [keptIds,normalizeTree]; exact keeps_nothing; all_goals simp
  | .array _ => by rw [keptIds,normalizeTree]; exact keeps_nothing; all_goals simp
  | .object fields => by
    rw [keptIds,normalizeTree]
    exact keeps_object fields (normalizeChild_keeps "first".toList fields)
      (normalizeChild_keeps "second".toList fields)
theorem normalizeChild_keeps : ∀ (name : Text) (fs : List (Text × Json)),
    Keeps panes (keptChildIds (usableIn panes) name fs) (normalizeChild panes name fs)
  | name, [] => by
    rw [keptChildIds,normalizeChild]
    exact keeps_nothing
  | name, (key,v) :: fs => by
    rw [keptChildIds,normalizeChild]
    split
    · exact normalizeTree_keeps v
    · exact normalizeChild_keeps name fs
end

end Kept

section Panes

theorem normalizePane_valid {v : Json} {fallbackId : Text} {p : EditorPaneStateV2}
    (hit : normalizePane v fallbackId = some p) : PaneValid p.id p := by
  unfold normalizePane at hit
  split at hit
  case h_1 fs =>
    dsimp only at hit
    split at hit
    · cases hit
      exact createPane_valid _ _ _
    · contradiction
  case h_2 => contradiction

variable (panes : List EditorPaneStateV2)

def AllValid : Prop := ∀ pane ∈ panes, PaneValid pane.id pane

theorem paneRecord_snoc (p : EditorPaneStateV2) : paneRecord (panes ++ [p]) =
      if isSafePaneId p.id then (paneRecord panes).set p.id p else paneRecord panes :=
  foldl_append

theorem get?_paneRecord {panes : List EditorPaneStateV2} {paneId : Text}
    {p : EditorPaneStateV2} (hit : (paneRecord panes).get? paneId = some p) :
    p ∈ panes ∧ p.id = paneId ∧ isSafePaneId paneId = true := by
  induction panes using reverseRecOn with
  | nil => contradiction
  | append_singleton panes last ih =>
    rw [paneRecord_snoc] at hit
    split at hit
    case isTrue safe =>
      rw [Record.get?_set] at hit
      split at hit
      case isTrue same =>
        cases hit
        exact ⟨by simp,same.symm,same ▸ safe⟩
      case isFalse =>
        obtain ⟨mem,rest⟩ := ih hit
        exact ⟨by simp [mem],rest⟩
    case isFalse =>
      obtain ⟨mem,rest⟩ := ih hit
      exact ⟨by simp [mem],rest⟩

theorem mem_keys_paneRecord (paneId : Text) : paneId ∈ (paneRecord panes).keys ↔
      isSafePaneId paneId = true ∧ ∃ p ∈ panes, p.id = paneId := by
  induction panes using reverseRecOn with
  | nil => simp [paneRecord]
  | append_singleton panes last ih =>
    rw [paneRecord_snoc]
    split
    case isTrue safe =>
      rw [Record.mem_keys_set,ih]
      constructor
      · intro either
        obtain rfl | ⟨safe,p,mem,named⟩ := either
        · exact ⟨safe,last,by simp,rfl⟩
        · exact ⟨safe,p,by simp [mem],named⟩
      · intro listed
        obtain ⟨safe,p,mem,named⟩ := listed
        obtain inside | rfl := (by simpa using mem : p ∈ panes ∨ p = last)
        · exact .inr ⟨safe,p,inside,named⟩
        · exact .inl named.symm
    case isFalse unsafeId =>
      rw [ih]
      constructor
      · intro listed
        obtain ⟨safe,p,mem,named⟩ := listed
        exact ⟨safe,p,by simp [mem],named⟩
      · intro listed
        obtain ⟨safe,p,mem,named⟩ := listed
        obtain inside | rfl := (by simpa using mem : p ∈ panes ∨ p = last)
        · exact ⟨safe,p,inside,named⟩
        · exact absurd (named ▸ safe) unsafeId

theorem normalizePaneRecord_valid (v : Option Json) : AllValid (normalizePaneRecord v).values := by
  intro p mem
  obtain ⟨⟨id,_⟩,e,rfl⟩ := mem_map.mp mem
  have hit := (Record.get?_eq_some _ _ _).mpr e
  unfold normalizePaneRecord at hit
  split at hit
  case h_1 fs =>
    obtain ⟨inside,-⟩ := get?_paneRecord hit
    obtain ⟨field,-,normalized⟩ := mem_filterMap.mp inside
    split at normalized
    · exact normalizePane_valid normalized
    · contradiction
  case h_2 => contradiction

theorem normalizePaneList_valid (v : Option Json) : AllValid (normalizePaneList v) := by
  intro p mem
  obtain ⟨e,-,normalized⟩ := mem_filterMap.mp mem
  exact normalizePane_valid normalized

theorem structurallyUsefulPanes_cases (preferredPaneId : Option Json) :
    (∀ p ∈ structurallyUsefulPanes panes preferredPaneId, p ∈ panes) ∧
      ((∀ p ∈ structurallyUsefulPanes panes preferredPaneId, p.openFiles ≠ []) ∨
        (structurallyUsefulPanes panes preferredPaneId).length ≤ 1) := by
  unfold structurallyUsefulPanes
  dsimp only
  split
  case isTrue =>
    refine ⟨fun p mem => (mem_filter.mp mem).1,.inl ?_⟩
    intro p mem
    simpa using (mem_filter.mp mem).2
  case isFalse =>
    cases chosen : ((text? preferredPaneId).bind fun id =>
        panes.find? fun p => p.id = id).or panes.head? with
    | none => simp
    | some p =>
      refine ⟨?_,.inr (by simp)⟩
      intro pane' mem
      obtain rfl : pane' = p := by simpa using mem
      rw [or_eq_some_iff] at chosen
      obtain preferred | ⟨-,first⟩ := chosen
      · obtain ⟨id,-,hit⟩ := bind_eq_some_iff.mp preferred
        exact mem_of_find?_eq_some hit
      · exact mem_of_head? first

theorem get?_showPane (panes : Record EditorPaneStateV2) (ids : List Text) (id : Text) :
    (ids.foldl (showPane panes) Record.empty).get? id = if id ∈ ids then panes.get? id else none := by
  induction ids using reverseRecOn with
  | nil => rfl
  | append_singleton ids last ih =>
    rw [foldl_append,foldl_cons,foldl_nil,showPane]
    cases hit : panes.get? last with
    | none =>
      rw [ih]
      by_cases same : id = last <;> simp [same,hit]
    | some p =>
      rw [Record.get?_set,ih]
      by_cases same : id = last <;> simp [same,hit]

theorem get?_visiblePanes (tree : EditorLayoutNode) (panes : Record EditorPaneStateV2) (id : Text) :
    (visiblePanesForTree tree panes).get? id =
      if id ∈ paneIdsFromTree tree then panes.get? id else none := by
  rw [visiblePanesForTree,get?_showPane]
  simp

end Panes

section Restore

variable {input : CreateEditorLayoutStateV2Input} {preferredPaneId : Option Json} {fallbackPaneId : Text}
  {panes : List EditorPaneStateV2} {layout : EditorLayoutStateV2} {r : Json.Fields} {tree : EditorLayoutNode}
  {p : EditorPaneStateV2}

theorem activePaneIdFromRecord_mem {panes : Record EditorPaneStateV2}
    (r : Json.Fields) (fallback : fallbackPaneId ∈ panes.keys) :
    activePaneIdFromRecord r panes fallbackPaneId ∈ panes.keys := by
  unfold activePaneIdFromRecord
  split
  case h_1 id =>
    split
    case isTrue resolvable =>
      exact (Record.mem_keys _ _).mpr (isSome_iff_exists.mp resolvable)
    case isFalse => exact fallback
  case h_2 => exact fallback

/-- The panes of a record list are valid under their keys, and either all hold files
or only one of them exists. -/
theorem usefulPanes_valid (valid : AllValid panes) {id : Text}
    (hit : (paneRecord (structurallyUsefulPanes panes preferredPaneId)).get? id =
      some p) : PaneValid id p := by
  obtain ⟨mem,rfl,-⟩ := get?_paneRecord hit
  exact valid p ((structurallyUsefulPanes_cases panes preferredPaneId).1 p mem)

theorem usefulPanes_populated {ids : List Text} (nodup : ids.Nodup) (several : 1 < ids.length)
    (owned : ∀ paneId ∈ ids, paneId ∈ (paneRecord (structurallyUsefulPanes panes preferredPaneId)).keys)
    {paneId : Text}
    (hit : (paneRecord (structurallyUsefulPanes panes preferredPaneId)).get? paneId =
      some p) : p.openFiles ≠ [] := by
  obtain ⟨mem,-,-⟩ := get?_paneRecord hit
  obtain full | single := (structurallyUsefulPanes_cases panes preferredPaneId).2
  · exact full p mem
  · have inside : ids ⊆ (structurallyUsefulPanes panes preferredPaneId).map
        EditorPaneStateV2.id := by
      intro id listed
      obtain ⟨-,named⟩ := (mem_keys_paneRecord _ id).mp (owned id listed)
      exact mem_map.mpr named
    have size := (subperm_of_subset nodup inside).length_le
    rw [length_map] at size
    omega

def SoundV2 (record : Json.Fields) : Prop :=
  let kept := keptChildIds (usableIn (panesV2 record)) "tree".toList record
  kept.leaves.Nodup ∧ kept.splits.Nodup

theorem visibleLayout_valid (r : Json.Fields) (input : CreateEditorLayoutStateV2Input)
    (owned : ∀ id ∈ paneIdsFromTree tree, id ∈ (panesV2 r).keys)
    (leaf : fallbackPaneId ∈ paneIdsFromTree tree) (leaves : (paneIdsFromTree tree).Nodup)
    (splits : (splitIdsFromTree tree).Nodup) :
    Valid (restoredLayout r input
      (activePaneIdFromRecord r (visiblePanesForTree tree (panesV2 r)) fallbackPaneId)
      tree (visiblePanesForTree tree (panesV2 r))) := by
  have shown : ∀ id, id ∈ paneIdsFromTree tree ↔ id ∈ (visiblePanesForTree tree (panesV2 r)).keys := by
    intro id
    rw [Record.mem_keys,get?_visiblePanes]
    split
    case isTrue mem => simpa [mem] using (Record.mem_keys _ _).mp (owned id mem)
    case isFalse absent => simp [absent]
  refine ⟨?_,leaves,splits,shown,?_,activePaneIdFromRecord_mem r ((shown _).mp leaf)⟩
  · intro id p hit
    change (visiblePanesForTree tree (panesV2 r)).get? id = some p at hit
    rw [get?_visiblePanes] at hit
    split at hit
    · exact usefulPanes_valid (normalizePaneRecord_valid _) hit
    · contradiction
  · intro several id p hit
    change (visiblePanesForTree tree (panesV2 r)).get? id = some p at hit
    rw [get?_visiblePanes] at hit
    split at hit
    · exact usefulPanes_populated leaves several owned hit
    · contradiction

theorem parseV2_valid_iff (parsed : parseV2 r input = some layout) :
    Valid layout ↔ SoundV2 r := by
  unfold parseV2 at parsed
  dsimp only at parsed
  split at parsed
  case h_1 => contradiction
  case h_2 firstPaneId first =>
    cases parsed
    have firstOwned : firstPaneId ∈ (panesV2 r).keys := mem_of_head? first
    have keeps : Keeps (panesV2 r) _ _ := normalizeChild_keeps "tree".toList r
    set tree := (normalizeChild (panesV2 r) "tree".toList r).getD (.pane firstPaneId)
      with chosen
    have owned : ∀ id ∈ paneIdsFromTree tree, id ∈ (panesV2 r).keys := by
      intro id mem
      cases kept : normalizeChild (panesV2 r) "tree".toList r with
      | none =>
        rw [chosen,kept,getD_none,paneIdsFromTree,mem_singleton] at mem
        exact mem ▸ firstOwned
      | some stored =>
        rw [chosen,kept,getD_some] at mem
        exact usable_owned (keeps.usable id (by rw [← keeps.leaves,kept]; exact mem))
    have sound : SoundV2 r ↔ (paneIdsFromTree tree).Nodup ∧ (splitIdsFromTree tree).Nodup := by
      rw [SoundV2,← keeps.leaves,← keeps.splits,chosen]
      cases normalizeChild (panesV2 r) "tree".toList r with
      | none => simp [paneIdsFromTree,splitIdsFromTree]
      | some stored => rfl
    rw [sound]
    constructor
    · intro valid
      exact ⟨valid.paneIdsDistinct,valid.splitIdsDistinct⟩
    · intro nodup
      apply visibleLayout_valid r input owned _ nodup.1 nodup.2
      obtain ⟨leaf,rest,leaves⟩ := exists_cons_of_ne_nil (paneIdsFromTree_ne_nil tree)
      simp [leaves]

/-- A record of version 1 whose useful panes are the leaves of its tree: one with a safe
id, or two with different safe ids and no further safe id beside these. -/
def SoundV1 (record : Json.Fields) : Prop :=
  match panesV1 record with
  | [] => True
  | [only] => isSafePaneId only.id = true
  | first :: second :: others =>
    first.id ≠ second.id ∧ isSafePaneId first.id = true ∧ isSafePaneId second.id = true ∧
      ∀ pane ∈ others, isSafePaneId pane.id = true → pane.id = first.id ∨ pane.id = second.id

theorem v1Layout_valid_iff (r : Json.Fields) (input : CreateEditorLayoutStateV2Input)
    {a : EditorPaneStateV2} {rest : List EditorPaneStateV2} (useful : panesV1 r = a :: rest)
    (leaf : a.id ∈ paneIdsFromTree tree) (splits : (splitIdsFromTree tree).Nodup) :
    Valid (restoredLayout r input (activePaneIdFromRecord r (paneRecord (a :: rest)) a.id) tree
      (paneRecord (a :: rest))) ↔
    (paneIdsFromTree tree).Nodup ∧
      ∀ paneId, paneId ∈ paneIdsFromTree tree ↔ paneId ∈ (paneRecord (a :: rest)).keys := by
  constructor
  · intro valid
    exact ⟨valid.paneIdsDistinct,valid.leaves⟩
  · intro agree
    obtain ⟨nodup,leaves⟩ := agree
    have active := activePaneIdFromRecord_mem r ((leaves _).mp leaf)
    rw [← useful] at leaves active ⊢
    refine ⟨?_,nodup,splits,leaves,?_,active⟩
    · intro paneId p hit
      exact usefulPanes_valid (normalizePaneList_valid _) hit
    · intro several paneId p hit
      exact usefulPanes_populated nodup several (fun id mem => (leaves id).mp mem) hit

theorem parseV1_valid_iff (parsed : parseV1 r input = some layout) :
    Valid layout ↔ SoundV1 r := by
  unfold parseV1 at parsed
  split at parsed
  case h_1 => contradiction
  case h_2 a rest useful =>
    cases parsed
    cases rest with
    | nil =>
      rw [v1Layout_valid_iff r input useful (by simp [v1Tree,paneIdsFromTree]) (by simp [v1Tree,splitIdsFromTree])]
      simp only [SoundV1,useful,head?_nil,v1Tree,paneIdsFromTree,nodup_singleton,
        true_and,mem_keys_paneRecord,mem_singleton,exists_eq_left]
      constructor
      · intro agree
        exact ((agree a.id).mp rfl).1
      · intro safe paneId
        constructor
        · intro same
          exact ⟨same ▸ safe,same.symm⟩
        · exact fun listed => listed.2.symm
    | cons b others =>
      rw [v1Layout_valid_iff r input useful (by simp [v1Tree,paneIdsFromTree]) (by simp [v1Tree,splitIdsFromTree])]
      simp only [SoundV1,useful,head?_cons,v1Tree,paneIdsFromTree,mem_keys_paneRecord]
      constructor
      · intro agree
        obtain ⟨nodup,leaves⟩ := agree
        refine ⟨by simpa using nodup,((leaves a.id).mp (by simp)).1,((leaves b.id).mp (by simp)).1,?_⟩
        intro p mem safe
        simpa using (leaves p.id).mpr ⟨safe,p,by simp [mem],rfl⟩
      · intro sound
        obtain ⟨nodup,safeFirst,safeSecond,others_shown⟩ := sound
        refine ⟨by simpa using nodup,?_⟩
        intro paneId
        constructor
        · intro mem
          obtain rfl | rfl := (by simpa using mem : paneId = a.id ∨ paneId = b.id)
          · exact ⟨safeFirst,a,by simp,rfl⟩
          · exact ⟨safeSecond,b,by simp,rfl⟩
        · intro listed
          obtain ⟨safe,p,mem,rfl⟩ := listed
          obtain rfl | mem := mem_cons.mp mem
          · simp
          obtain rfl | mem := mem_cons.mp mem
          · simp
          · simpa using others_shown p mem safe

theorem soundV2_of_parseV2_none (refused : parseV2 r input = none) : SoundV2 r := by
  unfold parseV2 at refused
  dsimp only at refused
  split at refused
  case h_1 noFirst =>
    have keeps : Keeps (panesV2 r) _ _ := normalizeChild_keeps "tree".toList r
    have unowned : (panesV2 r).keys = [] := head?_eq_none_iff.mp noFirst
    have leaves : (keptChildIds (usableIn (panesV2 r)) "tree".toList r).leaves = [] := by
      rw [eq_nil_iff_forall_not_mem]
      intro id mem
      have owned := usable_owned (keeps.usable id mem)
      simp [unowned] at owned
    have splits := keeps.splits
    rw [keeps.none_iff.mp leaves,elim_none] at splits
    exact ⟨leaves ▸ nodup_nil,splits ▸ nodup_nil⟩
  case h_2 => contradiction

theorem soundV1_of_parseV1_none (refused : parseV1 r input = none) : SoundV1 r := by
  unfold parseV1 at refused
  split at refused
  case h_1 none_useful => simp [SoundV1,none_useful]
  case h_2 => contradiction

/-- A persisted record that a layout can be restored from without breaking the invariant. -/
def Sound (record : Json.Fields) : Prop :=
  if isVersion2 record then SoundV2 record else SoundV1 record

theorem freshLayout_valid (input : CreateEditorLayoutStateV2Input) : Valid (freshLayout input) :=
  single_valid (createPane_valid _ _ _) rfl (by simp [freshLayout]) rfl

theorem parseRecord_valid_iff (r : Json.Fields) (input : CreateEditorLayoutStateV2Input) :
    Valid ((parseRecord r input).getD (freshLayout input)) ↔ Sound r := by
  unfold parseRecord Sound
  split
  case isTrue =>
    cases parsed : parseV2 r input with
    | none => exact iff_of_true (freshLayout_valid input) (soundV2_of_parseV2_none parsed)
    | some layout => exact parseV2_valid_iff parsed
  case isFalse =>
    cases parsed : parseV1 r input with
    | none => exact iff_of_true (freshLayout_valid input) (soundV1_of_parseV1_none parsed)
    | some layout => exact parseV1_valid_iff parsed

/-- A restored layout is valid exactly when the record it is restored from, if any, is sound. -/
theorem createEditorLayoutStateV2_valid_iff (parseJson : Text → Option Json)
    (input : CreateEditorLayoutStateV2Input) :
    Valid (createEditorLayoutStateV2 parseJson input) ↔
      ∀ record ∈ persistedRecord parseJson input.layoutJson, Sound record := by
  unfold createEditorLayoutStateV2 parsePersistedLayout
  cases stored : persistedRecord parseJson input.layoutJson with
  | none => simpa using freshLayout_valid input
  | some record => simpa using parseRecord_valid_iff record input

/-- A record of version 2 whose tree is a split with the pane `p` on both sides. -/
def twicePaneRecord : Json.Fields :=
  let leaf := Json.object [("type".toList,.string "pane".toList),("paneId".toList,.string ['p'])]
  let pane := Json.object [("file".toList,.string ['a']),("openFiles".toList,.array [.string ['a']])]
  [("schemaVersion".toList,.number (.ofNat 2)),
    ("panes".toList,.object [(['p'],pane)]),
    ("tree".toList,.object
      [("type".toList,.string "split".toList),("first".toList,leaf),("second".toList,leaf)])]

def twicePaneText : Text :=
  ("\x7b\"schemaVersion\":2,\"panes\":\x7b\"p\":\x7b\"file\":\"a\",\"openFiles\":[\"a\"]\x7d\x7d," ++
    "\"tree\":\x7b\"type\":\"split\",\"first\":\x7b\"type\":\"pane\",\"paneId\":\"p\"\x7d," ++
    "\"second\":\x7b\"type\":\"pane\",\"paneId\":\"p\"\x7d\x7d\x7d").toList

theorem createEditorLayoutStateV2_not_valid :
    ¬ ∀ parseJson input, Valid (createEditorLayoutStateV2 parseJson input) := by
  intro valid
  have distinct := (valid
    (fun text => if text = twicePaneText then some (.object twicePaneRecord) else none)
    ⟨['r'],[],[],some twicePaneText,.ofNat 280,.ofNat 200,.ofNat 500⟩).paneIdsDistinct
  revert distinct
  decide +kernel

end Restore

end Keiko.EditorLayout
