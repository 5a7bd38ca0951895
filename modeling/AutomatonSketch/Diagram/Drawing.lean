import AutomatonSketch.Diagram.Basic

/-! Drawing: the edits that a user makes to a diagram. -/

namespace AutomatonSketch

/-- A state as it was placed, and the one it took the start flag from. -/
structure Placement where
  node : Node
  replacedStart : Option StateKey
deriving DecidableEq

namespace Diagram

/-- Places a state; a start state takes the flag from the one before it. -/
def addNode (d : Diagram) (position : Coordinate) (isStart : Bool) :
    Except EditError (Placement × Diagram) :=
  match d.nodeAt? position with
  | some _ => .error (.occupied position.key)
  | none =>
    let n := Node.place position isStart
    if isStart then
      let (replaced, d) := d.takeStart
      .ok (⟨n, replaced⟩, d.insertNode n)
    else .ok (⟨n, none⟩, d.insertNode n)

/-- Makes a state final; also answers the state as it then is. -/
def markFinal (d : Diagram) (position : Coordinate) : Except EditError (Node × Diagram) :=
  match d.nodeAt? position with
  | none => .error (.noNode position.key .finalNode)
  | some n =>
    if n.isFinal then .error (.alreadyFinal position.key)
    else
      .ok ({ n with isFinal := true },
        d.modifyNode position.key fun n => { n with isFinal := true })

/-- Begins a transition at a state. It belongs to the diagram only when it is completed. -/
def beginEdge (d : Diagram) (start : Coordinate) (label : String) : Except EditError Edge :=
  match d.nodeAt? start with
  | none => .error (.noNode start.key .edgeStart)
  | some n => .ok (.begin n.position label)

/-- How far the control points of a loop stand off, along either axis. -/
def loopOffset : AxisValue := .clamp 200

def loopBack : AxisValue := .clamp (-200)

/-- Leads a curve to its destination. A loop opens to the left; any other curve keeps its first
control point and ends in its second. -/
def routed (curve : Curve) (destination : Coordinate) : Curve :=
  if curve.start = destination then
    { start := curve.start
      control1 := destination.offset loopBack loopOffset
      control2 := destination.offset loopBack loopBack
      finish := destination }
  else { curve with control2 := destination, finish := destination }

/-- Completes a transition at a state; also answers the transition as it was added. -/
def completeEdge (d : Diagram) (pending : Edge) (finish : Coordinate) :
    Except EditError (Edge × Diagram) :=
  match d.nodeAt? finish with
  | none => .error (.noNode finish.key .edgeEnd)
  | some n =>
    match d.nodeAt? pending.curve.start with
    | none => .error (.noNode pending.sourceKey .edgeStart)
    | some _ =>
      let e : Edge := ⟨routed pending.curve n.position, pending.label⟩
      .ok (e, d.pushEdge e)

end Diagram

end AutomatonSketch
