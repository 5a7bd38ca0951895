/-! What a click on the canvas means. -/

namespace AutomatonSketch

inductive EditorMode where
  | addingNode
  | addingFinalNode
  | addingStartNode
  | placingEdgeStart
  | placingEpsilonEdgeStart
  | placingEdgeEnd
  | draggingEdge
  | idle
deriving DecidableEq, Inhabited

namespace EditorMode

/-- The modes that the toolbar offers, in its order. -/
def selectable : List EditorMode :=
  [addingNode, addingStartNode, addingFinalNode, placingEdgeStart, placingEpsilonEdgeStart, idle]

def name : EditorMode → String
  | addingNode => "AddingNode"
  | addingFinalNode => "AddingFinalNode"
  | addingStartNode => "AddingStartNode"
  | placingEdgeStart => "PlacingEdgeStart"
  | placingEpsilonEdgeStart => "PlacingEpsilonEdgeStart"
  | placingEdgeEnd => "PlacingEdgeEnd"
  | draggingEdge => "DraggingEdge"
  | idle => "Idle"

def all : List EditorMode :=
  [addingNode, addingFinalNode, addingStartNode, placingEdgeStart, placingEpsilonEdgeStart,
    placingEdgeEnd, draggingEdge, idle]

def ofName? (s : String) : Option EditorMode := all.find? (·.name = s)

def label : EditorMode → String
  | addingNode => "Node"
  | addingFinalNode => "Final"
  | addingStartNode => "Start"
  | placingEdgeStart | placingEdgeEnd => "Edge"
  | placingEpsilonEdgeStart => "ϵ Edge"
  | draggingEdge => "Drag"
  | idle => "Select"

def hint : EditorMode → String
  | addingNode => "Click to place a state."
  | addingStartNode => "Click to place the start state."
  | addingFinalNode => "Click a state to make it final."
  | placingEdgeStart | placingEpsilonEdgeStart => "Click the state the transition leaves from."
  | placingEdgeEnd => "Click the state the transition goes to."
  | draggingEdge => "Move to bend the curve, click to let go."
  | idle => "Click near a transition to bend it."

/-- The mode that is left when a click sequence is broken off. -/
def settled : EditorMode → EditorMode
  | placingEdgeEnd => placingEdgeStart
  | draggingEdge => idle
  | mode => mode

end EditorMode

end AutomatonSketch
