import AutomatonSketch.Diagram.Drawing

/-! Recorded edits, and how a diagram takes one back or makes it again. -/

namespace AutomatonSketch

inductive Edit where
  | placeNode (node : Node) (replacedStart : Option StateKey)
  | completeEdge (edge : Edge)
  | markFinal (key : StateKey)
deriving DecidableEq

namespace Edit

def element? : Edit → Option Element
  | placeNode n _ => some (.node n)
  | completeEdge e => some (.edge e)
  | markFinal _ => none

end Edit

namespace Diagram

/-- Takes an edit back. Answers the edit in the form to make again, or `none` if the diagram does
not end in what the edit made. -/
def revert (d : Diagram) : Edit → Option Edit × Diagram
  | .placeNode n replacedStart =>
    match d.popNode n.key with
    | (none, d) => (none, d)
    | (some removed, d) =>
      (some (.placeNode removed replacedStart),
        (replacedStart.bind fun key => d.restoreStart? key).getD d)
  | .completeEdge e =>
    match d.edges.getLast? with
    | none => (none, d)
    | some live =>
      if live.curve.start = e.curve.start ∧ live.curve.finish = e.curve.finish ∧
          live.label = e.label then
        let shorter := { d with edges := d.edges.dropLast }
        (some (.completeEdge live),
          match shorter.unlink live.sourceKey live.destinationKey live.label true with
          | .ok d => d
          | .error _ => shorter)
      else (none, d)
  | .markFinal key =>
    match d.setFinal? key false with
    | some d => (some (.markFinal key), d)
    | none => (none, d)

/-- Makes an edit again. Answers the edit in the form to take back, or `none` if the diagram has no
room for it. -/
def reapply (d : Diagram) : Edit → Option Edit × Diagram
  | .placeNode n _ =>
    match d.nodeAt? n.position with
    | some _ => (none, d)
    | none =>
      if n.isStart then
        let (replaced, d) := d.takeStart
        (some (.placeNode n replaced), d.insertNode n.isolated)
      else (some (.placeNode n none), d.insertNode n.isolated)
  | .completeEdge e =>
    match d.node? e.sourceKey, d.node? e.destinationKey with
    | some _, some _ => (some (.completeEdge e), d.pushEdge e)
    | _, _ => (none, d)
  | .markFinal key =>
    match d.setFinal? key true with
    | some d => (some (.markFinal key), d)
    | none => (none, d)

end Diagram

end AutomatonSketch
