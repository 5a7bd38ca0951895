import AutomatonSketch.Editor.Mode
import AutomatonSketch.History.Basic
import AutomatonSketch.Simulation.Check
import AutomatonSketch.Workspace.Snapshot

/-! The editor: a diagram, its history, and what the next click does. -/

namespace AutomatonSketch

structure Editor where
  diagram : Diagram
  history : History
  mode : EditorMode
  /-- The transition whose end has not been placed. -/
  pendingEdge : Option Edge
  /-- The index of the curve that follows the pointer. -/
  selectedEdge : Option Nat
  dialogue : Option String
  options : WorkspaceOptions
deriving DecidableEq

namespace Editor

def withOptions (options : WorkspaceOptions) : Editor :=
  ⟨.empty, .empty, .addingNode, none, none, none, options⟩

def initial : Editor := withOptions .initial

instance : Inhabited Editor := ⟨initial⟩

def say (e : Editor) (message : String) : Editor := { e with dialogue := some message }

def hush (e : Editor) : Editor := { e with dialogue := none }

/-- Switches tools. A transition or a selection that belongs to another mode is dropped. -/
def setMode (e : Editor) (mode : EditorMode) : Editor :=
  { e with
    mode
    pendingEdge := if mode = .placingEdgeEnd then e.pendingEdge else none
    selectedEdge := if mode = .draggingEdge then e.selectedEdge else none }

def record (e : Editor) (edit : Edit) (diagram : Diagram) : Editor :=
  { e with diagram, history := e.history.record edit }

def placeNode (e : Editor) (c : Coordinate) (isStart : Bool) : Except EditError Editor :=
  match e.diagram.addNode c isStart with
  | .ok (placement, d) => .ok (e.record (.placeNode placement.node placement.replacedStart) d)
  | .error err => .error err

def markFinal (e : Editor) (c : Coordinate) : Except EditError Editor :=
  match e.diagram.markFinal c with
  | .ok (n, d) => .ok (e.record (.markFinal n.key) d)
  | .error err => .error err

def startEdge (e : Editor) (c : Coordinate) (label : String) : Except EditError Editor :=
  match e.diagram.beginEdge c label with
  | .ok pending => .ok { e with pendingEdge := some pending, mode := .placingEdgeEnd }
  | .error err => .error err

def finishEdge (e : Editor) (pending : Edge) (c : Coordinate) : Except EditError Editor :=
  match e.diagram.completeEdge pending c with
  | .ok (edge, d) =>
    .ok { e.record (.completeEdge edge) d with pendingEdge := none, mode := .placingEdgeStart }
  | .error err => .error err

/-- What a click does in the current mode; `label` is for transitions that begin here. -/
def applyClick (e : Editor) (c : Coordinate) (label : String) : Except EditError Editor :=
  match e.mode with
  | .addingNode => e.placeNode c false
  | .addingStartNode => (e.placeNode c true).map fun e => { e with mode := .addingNode }
  | .addingFinalNode => e.markFinal c
  | .placingEdgeStart => e.startEdge c label
  | .placingEpsilonEdgeStart => e.startEdge c epsilon
  | .placingEdgeEnd =>
    match e.pendingEdge with
    | some pending => e.finishEdge pending c
    | none => .error .noPendingEdge
  | .draggingEdge => .ok { e with selectedEdge := none, mode := .idle }
  | .idle => .ok e

/-- The mode after a click that was refused: without a transition to end, one has to begin. -/
def modeAfter (mode : EditorMode) : EditError → EditorMode
  | .noPendingEdge => .placingEdgeStart
  | _ => mode

/-- Handles a click. One that is refused leaves its reason as the message. -/
def clickWith (e : Editor) (c : Coordinate) (label : String) : Except EditError Unit × Editor :=
  match e.hush.applyClick c label with
  | .ok e => (.ok (), e)
  | .error err =>
    (.error err, { e with dialogue := some err.message, mode := modeAfter e.mode err })

def click (e : Editor) (c : Coordinate) : Except EditError Unit × Editor :=
  e.clickWith c e.options.edgeLabel

def previewPendingEdge (e : Editor) (c : Coordinate) : Editor :=
  { e with
    pendingEdge := e.pendingEdge.map fun p => { p with curve := { p.curve with control1 := c } } }

/-- Selects the curve nearest to a point for dragging; also answers its index. -/
def selectCurveAt (e : Editor) (p : Point) : Option Nat × Editor :=
  match Curve.nearestIndex (e.diagram.edges.map (·.curve)) p Curve.hitSlices with
  | none => (none, e)
  | some i =>
    (some i, { e with pendingEdge := none, selectedEdge := some i, mode := .draggingEdge })

/-- Bends the selected curve; `none` if there is none. -/
def dragSelectedCurve? (e : Editor) (c : Coordinate) : Option Editor :=
  match e.selectedEdge with
  | none => none
  | some i =>
    if e.mode = .draggingEdge then
      (e.diagram.setEdgeControl? i c).map fun diagram => { e with diagram }
    else none

/-- Breaks off a click sequence. -/
def settle (e : Editor) : Editor :=
  { e with pendingEdge := none, selectedEdge := none, mode := e.mode.settled }

/-- Takes the newest edit back; also answers the element it had created. -/
def undo (e : Editor) : Option Element × Editor :=
  let (edit, history, diagram) := e.history.undo e.diagram
  (edit.bind Edit.element?, { e.settle with history, diagram })

/-- Makes the edit taken back last again; also answers the element it creates. -/
def redo (e : Editor) : Option Element × Editor :=
  let (edit, history, diagram) := e.history.redo e.diagram
  (edit.bind Edit.element?, { e.settle with history, diagram })

/-- Clears the diagram; redoing brings it back. -/
def discardAll (e : Editor) : Editor :=
  { e.settle with history := e.history.discardAll, diagram := .empty, mode := .idle }

def snapshot (e : Editor) : Snapshot := .capture e.diagram e.options

def restore (_e : Editor) (data : Snapshot) : Except WorkspaceError Editor :=
  match data.restore with
  | .error err => .error err
  | .ok d => .ok { withOptions data.options with diagram := d, history := .ofDiagram d }

def stringCheck (e : Editor) (input : Option String) : StringCheck where
  kind := e.options.kind
  strict := e.options.strict
  alphabet := e.options.alphabet
  states := e.diagram.index
  start := e.diagram.start
  input

end Editor

end AutomatonSketch
