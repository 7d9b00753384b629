import Keiko.EditorLayout
import Keiko.Library.Json

/-! Restoring a layout from persisted JSON of schema version 1 or 2. The parser of
JSON texts is a parameter; everything that is built from its value is followed as
the source does it, from the panes over the tree to the fallback. -/
namespace Keiko.EditorLayout
open Keiko.Library

structure CreateEditorLayoutStateV2Input where
  root : Text
  file : Text
  openFiles : List Text
  layoutJson : Option Text
  defaultSidebarWidth : Number
  minSidebarWidth : Number
  maxSidebarWidth : Number

section Panes

def stringArray (value : Option Json) : List Text :=
  match Json.items? value with
  | none => []
  | some items => Distinct.collect isNamed [] (items.filterMap fun item => Json.text? (some item))

def normalizedActiveFile (value : Json.Fields) : Text :=
  ((Json.text? (Json.field value "activeFile".toList)).or
    (Json.text? (Json.field value "file".toList))).getD []

def namedField (value : Json.Fields) (name fallback : Text) : Text :=
  match Json.text? (Json.field value name) with
  | some text => if isNamed text then text else fallback
  | none => fallback

def normalizePane (value : Json) (fallbackId : Text) : Option EditorPaneStateV2 :=
  match value with
  | .object fields =>
    let id := namedField fields "id".toList fallbackId
    let activeFile := normalizedActiveFile fields
    let openFiles := stringArray (Json.field fields "openFiles".toList)
    let tabOrder := stringArray (Json.field fields "tabOrder".toList)
    let pane := createPane id activeFile (orderedFiles activeFile openFiles tabOrder)
    let explicitlyEmpty := (Json.items? (Json.field fields "openFiles".toList)).isSome ∧
      ((Json.text? (Json.field fields "activeFile".toList)).isSome ∨
        (Json.text? (Json.field fields "file".toList)).isSome)
    if pane.openFiles ≠ [] ∨ pane.activeFile ≠ [] ∨ explicitlyEmpty then some pane else none
  | _ => none

def unsafePaneIds : List Text :=
  ["__proto__".toList,"constructor".toList,"prototype".toList]

def isSafePaneId (id : Text) : Bool := isNamed id && !unsafePaneIds.contains id

def hasResolvablePane (panes : Record EditorPaneStateV2) (paneId : Text) : Bool :=
  (panes.get? paneId).isSome

def paneRecord (panes : List EditorPaneStateV2) : Record EditorPaneStateV2 :=
  panes.foldl (fun record pane =>
    if isSafePaneId pane.id then record.set pane.id pane else record) Record.empty

def normalizePaneRecord (value : Option Json) : Record EditorPaneStateV2 :=
  match value with
  | some (.object fields) =>
    paneRecord (fields.filterMap fun entry =>
      if isSafePaneId entry.1 then normalizePane entry.2 entry.1 else none)
  | _ => Record.empty

def normalizePaneList (value : Option Json) : List EditorPaneStateV2 :=
  ((Json.items? value).getD []).zipIdx.filterMap fun entry =>
    normalizePane entry.1 (paneName (entry.2 + 1))

def structurallyUsefulPanes (panes : List EditorPaneStateV2) (preferredPaneId : Option Json) : List EditorPaneStateV2 :=
  let populated := panes.filter fun pane => !pane.openFiles.isEmpty
  if populated ≠ [] then populated
  else
    let preferred := (Json.text? preferredPaneId).bind fun id =>
      panes.find? fun pane => pane.id = id
    (preferred.or panes.head?).toList

end Panes

section Tree

def parseDirection (value : Option Json) : EditorSplitDirection :=
  if Json.text? value = some "column".toList then .column else .row

def parseRatio (value : Option Json) : Number := clampRatio ((Json.finite? value).getD (.ofNat 50))

def normalizePaneNode (value : Json.Fields) (panes : Record EditorPaneStateV2) : Option EditorLayoutNode :=
  if Json.text? (Json.field value "type".toList) = some "pane".toList then
    match Json.text? (Json.field value "paneId".toList) with
    | some paneId =>
      if isSafePaneId paneId && hasResolvablePane panes paneId then some (.pane paneId) else none
    | none => none
  else none

def normalizeSplitNode (value : Json.Fields) (first second : Option EditorLayoutNode) : Option EditorLayoutNode :=
  if Json.text? (Json.field value "type".toList) = some "split".toList then
    match first, second with
    | none, second => second
    | some first, none => some first
    | some first, some second =>
      some (.split (namedField value "id".toList (splitName 1))
        (parseDirection (Json.field value "direction".toList))
        (parseRatio (Json.field value "ratio".toList)) first second)
  else none

mutual
def normalizeTree (panes : Record EditorPaneStateV2) : Json → Option EditorLayoutNode
  | .object fields =>
    (normalizePaneNode fields panes).or
      (normalizeSplitNode fields (normalizeChild panes "first".toList fields)
        (normalizeChild panes "second".toList fields))
  | _ => none
def normalizeChild (panes : Record EditorPaneStateV2) (name : Text) : List (Text × Json) → Option EditorLayoutNode
  | [] => none
  | (key,value) :: fields =>
    if key = name then normalizeTree panes value else normalizeChild panes name fields
end

def showPane (panes visiblePanes : Record EditorPaneStateV2) (paneId : Text) : Record EditorPaneStateV2 :=
  match panes.get? paneId with
  | some pane => visiblePanes.set paneId pane
  | none => visiblePanes

def visiblePanesForTree (tree : EditorLayoutNode) (panes : Record EditorPaneStateV2) : Record EditorPaneStateV2 :=
  (Distinct.collect (fun _ => true) [] (paneIdsFromTree tree)).foldl (showPane panes) Record.empty

end Tree

section Layout

def persistedSidebarWidth (record : Json.Fields) (input : CreateEditorLayoutStateV2Input) : Number :=
  match Json.finite? (Json.field record "sidebarWidth".toList) with
  | some width => clampNumber width input.minSidebarWidth input.maxSidebarWidth
  | none => input.defaultSidebarWidth

def activePaneIdFromRecord (record : Json.Fields) (panes : Record EditorPaneStateV2) (fallbackPaneId : Text) : Text :=
  match Json.text? (Json.field record "activePaneId".toList) with
  | some paneId => if hasResolvablePane panes paneId then paneId else fallbackPaneId
  | none => fallbackPaneId

/-- `value === expected` for a boolean. -/
def isBool (value : Option Json) (expected : Bool) : Bool :=
  match value with
  | some (.bool value) => value == expected
  | _ => false

def restoredLayout (record : Json.Fields) (input : CreateEditorLayoutStateV2Input)
    (activePaneId : Text) (tree : EditorLayoutNode) (panes : Record EditorPaneStateV2) :
    EditorLayoutStateV2 :=
  { root := input.root
    activePaneId
    tree
    panes
    sidebarWidth := persistedSidebarWidth record input
    sidebarCollapsed := isBool (Json.field record "sidebarCollapsed".toList) true
    outlinePanelVisible := !isBool (Json.field record "outlinePanelVisible".toList) false }

def panesV2 (record : Json.Fields) : Record EditorPaneStateV2 :=
  paneRecord (structurallyUsefulPanes
    (normalizePaneRecord (Json.field record "panes".toList)).values
    (Json.field record "activePaneId".toList))

def parseV2 (record : Json.Fields) (input : CreateEditorLayoutStateV2Input) : Option EditorLayoutStateV2 :=
  let panes := panesV2 record
  match panes.keys.head? with
  | none => none
  | some firstPaneId =>
    let tree := (normalizeChild panes "tree".toList record).getD (.pane firstPaneId)
    let visiblePanes := visiblePanesForTree tree panes
    let fallbackPaneId := (paneIdsFromTree tree).head?.getD firstPaneId
    some (restoredLayout record input (activePaneIdFromRecord record visiblePanes fallbackPaneId) tree visiblePanes)

def v1Tree (first : EditorPaneStateV2) (second : Option EditorPaneStateV2) (record : Json.Fields) : EditorLayoutNode :=
  match second with
  | none => .pane first.id
  | some second =>
    .split (splitName 1) (parseDirection (Json.field record "direction".toList))
      (parseRatio (Json.field record "splitRatio".toList)) (.pane first.id) (.pane second.id)

def panesV1 (record : Json.Fields) : List EditorPaneStateV2 :=
  structurallyUsefulPanes (normalizePaneList (Json.field record "panes".toList))
    (Json.field record "activePaneId".toList)

def parseV1 (record : Json.Fields) (input : CreateEditorLayoutStateV2Input) : Option EditorLayoutStateV2 :=
  match panesV1 record with
  | [] => none
  | first :: rest =>
    let panes := paneRecord (first :: rest)
    some (restoredLayout record input (activePaneIdFromRecord record panes first.id)
      (v1Tree first rest.head? record) panes)

/-- `record.schemaVersion ?? record.version` is one of the spellings of version 2. -/
def isVersion2 (record : Json.Fields) : Bool :=
  let version := match Json.field record "schemaVersion".toList with
    | none => Json.field record "version".toList
    | some .null => Json.field record "version".toList
    | some version => some version
  match version with
  | some (.number value) => value = .ofNat 2
  | some (.string text) => text = "2".toList
  | _ => false

def parseRecord (record : Json.Fields) (input : CreateEditorLayoutStateV2Input) : Option EditorLayoutStateV2 :=
  if isVersion2 record then parseV2 record input else parseV1 record input

variable (parseJson : Text → Option Json)

def persistedRecord (layoutJson : Option Text) : Option Json.Fields :=
  match layoutJson with
  | none => none
  | some text =>
    if Text.trim text = [] then none
    else match parseJson text with
      | some (.object record) => some record
      | _ => none

variable (input : CreateEditorLayoutStateV2Input)

def parsePersistedLayout : Option EditorLayoutStateV2 :=
  (persistedRecord parseJson input.layoutJson).bind fun record => parseRecord record input

def freshLayout : EditorLayoutStateV2 :=
  let activeFile := if isNamed input.file then input.file else (fileAt input.openFiles 0).getD []
  let pane := createPane (paneName 1) activeFile input.openFiles
  { root := input.root
    activePaneId := pane.id
    tree := .pane pane.id
    panes := paneRecordFrom Record.empty [(pane.id,pane)]
    sidebarWidth := input.defaultSidebarWidth
    sidebarCollapsed := false
    outlinePanelVisible := true }

def createEditorLayoutStateV2 : EditorLayoutStateV2 :=
  (parsePersistedLayout parseJson input).getD (freshLayout input)

end Layout

end Keiko.EditorLayout
