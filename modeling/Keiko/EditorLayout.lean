import Keiko.Library.Distinct
import Keiko.Library.Number
import Keiko.Library.Record

/-! The editor layout and its reducer. A layout names its panes twice, as leaves of
the tree of splits and as keys of the pane record; each operation of the source
rewrites both. The source's `undefined` is `none`, its empty file name the empty text. -/
namespace Keiko.EditorLayout
open Keiko.Library

inductive EditorSplitDirection where
  | row
  | column
  deriving DecidableEq, Repr

inductive EditorSplitDropZone where
  | left
  | right
  | top
  | bottom
  | center
  deriving DecidableEq, Repr

inductive EditorLayoutNode where
  | pane (paneId : Text)
  | split (id : Text) (direction : EditorSplitDirection) (ratio : Number)
      (first second : EditorLayoutNode)
  deriving DecidableEq

structure EditorPaneStateV2 where
  id : Text
  openFiles : List Text
  activeFile : Text
  tabOrder : List Text
  deriving DecidableEq, Repr

structure EditorLayoutStateV2 where
  root : Text
  activePaneId : Text
  tree : EditorLayoutNode
  panes : Record EditorPaneStateV2
  sidebarWidth : Number
  sidebarCollapsed : Bool
  outlinePanelVisible : Bool

structure EditorTabDragIntent where
  file : Text
  fromPaneId : Text
  toPaneId : Text
  zone : EditorSplitDropZone
  targetIndex : Option Number

inductive EditorLayoutAction where
  | openFile (paneId file : Text)
  | selectFile (paneId file : Text)
  | closeTab (paneId file : Text)
  | closePane (paneId : Text)
  | setActivePane (paneId : Text)
  | reorderTab (paneId file : Text) (targetIndex : Number)
  | moveTab (fromPaneId toPaneId file : Text) (targetIndex : Option Number)
  | dropTab (intent : EditorTabDragIntent)
  | splitPane (paneId : Text) (direction : EditorSplitDirection) (file : Option Text)
  | resizeSplit (splitId : Text) (ratio : Number)
  | setSidebar (width : Option Number) (collapsed : Option Bool)
  | setOutlinePanel (visible : Bool)
  | replaceRoot (root : Text) (sidebarWidth : Option Number)
  | renameFile (fromPath toPath : Text)
  | removeFile (file : Text)

section Numbers

def minSplitRatio : Number := .ofNat 15
def maxSplitRatio : Number := .ofNat 85
def sidebarWidthMinAbsolute : Number := .ofNat 0
def sidebarWidthMaxAbsolute : Number := .ofNat 4096

def clampNumber (value min max : Number) : Number :=
  if !value.isFinite then min else Number.min max (Number.max min value)

def clampSidebarWidth (width : Number) : Number :=
  clampNumber width sidebarWidthMinAbsolute sidebarWidthMaxAbsolute

def clampRatio (value : Number) : Number := clampNumber value.round minSplitRatio maxSplitRatio

end Numbers

section Files

def isNamed (file : Text) : Bool := !file.isEmpty

def orderedFiles (activeFile : Text) (openFiles tabOrder : List Text) : List Text :=
  Distinct.add isNamed (Distinct.collect isNamed (Distinct.collect isNamed [] tabOrder) openFiles) activeFile

variable (files : List Text)

def dedupeFiles : List Text := Distinct.collect isNamed [] files

def withoutFile (file : Text) : List Text :=
  files.filter fun entry => entry != file

def insertFile (file : Text) (index : Option Number) : List Text :=
  let without := withoutFile files file
  let clamped : Number := match index with
    | none => .ofNat without.length
    | some index => clampNumber index 0 (.ofNat without.length)
  let position := clamped.sliceIndex without.length
  without.take position ++ file :: without.drop position

/-- `indexOf`, which is negative for a file that is not listed. -/
def indexOf (file : Text) : Int :=
  match files.idxOf? file with
  | some index => index
  | none => -1

def fileAt (index : Int) : Option Text :=
  if index < 0 then none else files[index.toNat]?

def activeOr (activeFile : Text) (tabOrder : List Text) : Text :=
  if isNamed activeFile then activeFile else (fileAt tabOrder 0).getD []

def createPane (id activeFile : Text) (openFiles : List Text) : EditorPaneStateV2 :=
  let tabOrder := orderedFiles activeFile openFiles []
  ⟨id,tabOrder,activeOr activeFile tabOrder,tabOrder⟩

def withPaneFiles (pane : EditorPaneStateV2) (files : List Text) (activeFile : Text) :
    EditorPaneStateV2 :=
  let tabOrder := orderedFiles activeFile files []
  { pane with openFiles := tabOrder, tabOrder, activeFile := activeOr activeFile tabOrder }

end Files

section Panes

def paneRecordFrom (base : Record EditorPaneStateV2)
    (additions : List (Text × EditorPaneStateV2)) : Record EditorPaneStateV2 :=
  (Record.fromEntries base.entries).assign additions

def paneIdsFromTree : EditorLayoutNode → List Text
  | .pane paneId => [paneId]
  | .split _ _ _ first second => paneIdsFromTree first ++ paneIdsFromTree second

def splitIdsFromTree : EditorLayoutNode → List Text
  | .pane _ => []
  | .split id _ _ first second => id :: (splitIdsFromTree first ++ splitIdsFromTree second)

variable (layout : EditorLayoutStateV2)

def editorLayoutPaneIds : List Text := paneIdsFromTree layout.tree

def editorLayoutPanes : List EditorPaneStateV2 :=
  (editorLayoutPaneIds layout).filterMap layout.panes.get?

def editorLayoutOpenFiles : List Text :=
  Distinct.collect isNamed [] ((editorLayoutPanes layout).flatMap EditorPaneStateV2.openFiles)

def updatePane (paneId : Text)
    (update : EditorPaneStateV2 → EditorPaneStateV2) : EditorLayoutStateV2 :=
  match layout.panes.get? paneId with
  | none => layout
  | some pane => { layout with panes := paneRecordFrom layout.panes [(paneId,update pane)] }

def paneName (index : Nat) : Text := "pane-".toList ++ Text.numberText index

def splitName (index : Nat) : Text := "split-".toList ++ Text.numberText index

def nextPaneId : Text :=
  let keys := layout.panes.keys
  paneName (Distinct.freeIndex keys paneName keys.length (keys.length + 1))

def nextSplitId (node : EditorLayoutNode) : Text :=
  let used := Distinct.collect (fun _ => true) [] (splitIdsFromTree node)
  splitName (Distinct.freeIndex used splitName used.length (used.length + 1))

def replacePaneNode (paneId : Text) (replacement : EditorLayoutNode) : EditorLayoutNode → EditorLayoutNode
  | .pane id => if id = paneId then replacement else .pane id
  | .split id direction ratio first second =>
    .split id direction ratio (replacePaneNode paneId replacement first) (replacePaneNode paneId replacement second)

def removePaneNode (paneId : Text) : EditorLayoutNode → Option EditorLayoutNode
  | .pane id => if id = paneId then none else some (.pane id)
  | .split id direction ratio first second =>
    match removePaneNode paneId first, removePaneNode paneId second with
    | none, second => second
    | some first, none => some first
    | some first, some second => some (.split id direction ratio first second)

def resizeSplitNode (splitId : Text) (ratio : Number) : EditorLayoutNode → EditorLayoutNode
  | .pane id => .pane id
  | .split id direction current first second =>
    .split id direction (if id = splitId then clampRatio ratio else current)
      (resizeSplitNode splitId ratio first) (resizeSplitNode splitId ratio second)

end Panes

section Operations

variable (layout : EditorLayoutStateV2)

def insertSplitPane (targetPaneId : Text)
    (direction : EditorSplitDirection) (file : Text) (before : Bool) : EditorLayoutStateV2 :=
  if layout.panes.get? targetPaneId = none ∨ file = [] then layout
  else
    let newPaneId := nextPaneId layout
    let newPane := createPane newPaneId file [file]
    let first := .pane (if before then newPaneId else targetPaneId)
    let second := .pane (if before then targetPaneId else newPaneId)
    let replacement := .split (nextSplitId layout.tree) direction (.ofNat 50) first second
    { layout with
      activePaneId := newPaneId
      tree := replacePaneNode targetPaneId replacement layout.tree
      panes := paneRecordFrom layout.panes [(newPaneId,newPane)] }

def removePane (paneId : Text) : EditorLayoutStateV2 :=
  if layout.panes.get? paneId = none ∨ (editorLayoutPaneIds layout).length ≤ 1 then layout
  else match removePaneNode paneId layout.tree with
    | none => layout
    | some nextTree =>
      let panes := Record.fromEntries (layout.panes.entries.filter fun entry => entry.1 != paneId)
      let nextActivePaneId :=
        if layout.activePaneId = paneId then (paneIdsFromTree nextTree).head?.getD layout.activePaneId
        else layout.activePaneId
      { layout with tree := nextTree, panes, activePaneId := nextActivePaneId }

def closeTab (paneId file : Text) : EditorLayoutStateV2 :=
  match layout.panes.get? paneId with
  | none => layout
  | some pane =>
    if file ∉ pane.openFiles then layout
    else
      let closingIndex := indexOf pane.tabOrder file
      let nextFiles := withoutFile pane.openFiles file
      if nextFiles = [] then if 1 < (editorLayoutPaneIds layout).length then removePane layout paneId
        else updatePane layout paneId fun current => withPaneFiles current [] []
      else
        let nextActive :=
          if pane.activeFile = file then (fileAt nextFiles closingIndex <|> fileAt nextFiles (closingIndex - 1) <|>
              fileAt nextFiles 0).getD []
          else pane.activeFile
        updatePane layout paneId fun current => withPaneFiles current nextFiles nextActive

def splitPane (paneId : Text) (direction : EditorSplitDirection)
    (file : Option Text) (before : Bool) : EditorLayoutStateV2 :=
  match layout.panes.get? paneId with
  | none => layout
  | some source =>
    let activeFile := file.getD source.activeFile
    if activeFile = [] ∨ activeFile ∉ source.openFiles then layout
    else if withoutFile source.openFiles activeFile = [] then layout
    else insertSplitPane (closeTab layout paneId activeFile) paneId direction activeFile before

def moveTab (fromPaneId toPaneId file : Text)
    (targetIndex : Option Number) : EditorLayoutStateV2 :=
  if fromPaneId = toPaneId then match layout.panes.get? toPaneId with
    | none => layout
    | some pane =>
      if file ∉ pane.openFiles then layout
      else updatePane layout toPaneId fun current =>
        withPaneFiles current (insertFile current.tabOrder file targetIndex) file
  else match layout.panes.get? fromPaneId, layout.panes.get? toPaneId with
    | some fromPane, some _ =>
      if file ∉ fromPane.openFiles then layout
      else
        let next := closeTab layout fromPaneId file
        if next.panes.get? toPaneId = none then next
        else { updatePane next toPaneId fun pane =>
              withPaneFiles pane (insertFile pane.tabOrder file targetIndex) file with
            activePaneId := toPaneId }
    | _, _ => layout

def dropDirection (zone : EditorSplitDropZone) : EditorSplitDirection :=
  if zone = .top ∨ zone = .bottom then .column else .row

def dropBefore (zone : EditorSplitDropZone) : Bool := zone = .top ∨ zone = .left

def reduceDropTab (intent : EditorTabDragIntent) :
    EditorLayoutStateV2 :=
  if intent.zone = .center then moveTab layout intent.fromPaneId intent.toPaneId intent.file intent.targetIndex
  else match layout.panes.get? intent.fromPaneId with
    | none => layout
    | some fromPane =>
      if intent.file ∉ fromPane.openFiles then layout
      else
        let direction := dropDirection intent.zone
        let before := dropBefore intent.zone
        if intent.fromPaneId = intent.toPaneId then splitPane layout intent.toPaneId direction (some intent.file) before
        else
          -- The tab is closed in its source pane whether or not the target pane exists.
          insertSplitPane (closeTab layout intent.fromPaneId intent.file) intent.toPaneId direction intent.file before

end Operations

section Paths

def renamePathUnderPrefix (file fromPath toPath : Text) : Text :=
  if file = fromPath then toPath
  else if (fromPath ++ ['/']).isPrefixOf file then toPath ++ file.drop fromPath.length
  else file

/-- The renamed pane; `none` when the source hands the pane itself back. -/
def renameFileInPane (pane : EditorPaneStateV2) (fromPath toPath : Text) : Option EditorPaneStateV2 :=
  let swap := fun file => renamePathUnderPrefix file fromPath toPath
  let openFiles := dedupeFiles (pane.openFiles.map swap)
  let tabOrder := dedupeFiles (pane.tabOrder.map swap)
  let activeFile := swap pane.activeFile
  if openFiles = pane.openFiles ∧ activeFile = pane.activeFile then none
  else some { pane with
    openFiles
    tabOrder
    activeFile :=
      if isNamed activeFile then activeFile
      else (fileAt tabOrder 0 <|> fileAt openFiles 0).getD [] }

def renamedPane (fromPath toPath : Text) (pane : EditorPaneStateV2) : EditorPaneStateV2 :=
  (renameFileInPane pane fromPath toPath).getD pane

variable (layout : EditorLayoutStateV2)

def renameFileEverywhere (fromPath toPath : Text) :
    EditorLayoutStateV2 :=
  if fromPath = [] ∨ toPath = [] ∨ fromPath = toPath then layout
  else
    let panes := Record.fromEntries
      (layout.panes.entries.map fun entry => (entry.1,renamedPane fromPath toPath entry.2))
    let changed := layout.panes.entries.any fun entry =>
      (renameFileInPane entry.2 fromPath toPath).isSome
    if changed then { layout with panes } else layout

def isAtOrUnder (file path : Text) : Bool := path == file || (file ++ ['/']).isPrefixOf path

def removalTargets (file : Text) : List (Text × Text) :=
  (editorLayoutPanes layout).flatMap fun pane =>
    (pane.openFiles.filter (isAtOrUnder file)).map fun path => (pane.id,path)

def removeFileEverywhere (file : Text) : EditorLayoutStateV2 :=
  if file = [] then layout
  else (removalTargets layout file).foldl (fun layout target => closeTab layout target.1 target.2) layout

def replaceRoot (root : Text) (sidebarWidth : Option Number) :
    EditorLayoutStateV2 :=
  let pane := createPane (paneName 1) [] []
  { root
    activePaneId := pane.id
    tree := .pane pane.id
    panes := paneRecordFrom Record.empty [(pane.id,pane)]
    sidebarWidth := match sidebarWidth with
      | none => layout.sidebarWidth
      | some width => clampSidebarWidth width
    sidebarCollapsed := false
    outlinePanelVisible := layout.outlinePanelVisible }

end Paths

def editorLayoutReducer (layout : EditorLayoutStateV2) : EditorLayoutAction → EditorLayoutStateV2
  | .openFile paneId file =>
    updatePane layout paneId fun pane =>
      withPaneFiles pane (orderedFiles file pane.openFiles []) file
  | .selectFile paneId file =>
    -- The pane becomes active before the source looks whether it exists.
    updatePane { layout with activePaneId := paneId } paneId fun pane =>
      if file ∈ pane.openFiles then withPaneFiles pane pane.openFiles file else pane
  | .closeTab paneId file => closeTab layout paneId file
  | .closePane paneId => removePane layout paneId
  | .setActivePane paneId =>
    if layout.panes.get? paneId = none then layout else { layout with activePaneId := paneId }
  | .reorderTab paneId file targetIndex =>
    updatePane layout paneId fun pane =>
      if file ∈ pane.openFiles then withPaneFiles pane (insertFile pane.tabOrder file (some targetIndex)) file
      else pane
  | .moveTab fromPaneId toPaneId file targetIndex =>
    moveTab layout fromPaneId toPaneId file targetIndex
  | .dropTab intent => reduceDropTab layout intent
  | .splitPane paneId direction file => splitPane layout paneId direction file false
  | .resizeSplit splitId ratio =>
    { layout with tree := resizeSplitNode splitId ratio layout.tree }
  | .setSidebar width collapsed =>
    { layout with
      sidebarWidth := match width with
        | none => layout.sidebarWidth
        | some width => clampSidebarWidth width
      sidebarCollapsed := collapsed.getD layout.sidebarCollapsed }
  | .setOutlinePanel visible => { layout with outlinePanelVisible := visible }
  | .replaceRoot root sidebarWidth => replaceRoot layout root sidebarWidth
  | .renameFile fromPath toPath => renameFileEverywhere layout fromPath toPath
  | .removeFile file => removeFileEverywhere layout file

end Keiko.EditorLayout
