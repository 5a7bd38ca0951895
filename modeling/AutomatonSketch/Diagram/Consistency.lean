import AutomatonSketch.Diagram.Basic

/-! The check that the parts of a diagram agree with one another. -/

namespace AutomatonSketch

inductive Defect where
  | counts (listed indexed : Nat)
  | notIndexed (key : StateKey)
  | misfiled (position : Coordinate) (key : StateKey)
  | startFlags (flagged : List StateKey) (start : Option StateKey)
  | noSource (c : Coordinate)
  | noDestination (c : Coordinate)
  | notListed (e : Edge)
deriving DecidableEq

namespace Defect

def listedKey (key : StateKey) : String := "StateKey(\"" ++ key.text ++ "\")"

def message : Defect → String
  | counts listed indexed =>
    Numeral.text listed ++ " nodes listed but " ++ Numeral.text indexed ++ " indexed"
  | notIndexed key => "listed node " ++ key.text ++ " is not indexed"
  | misfiled position key => "node at " ++ position.text ++ " filed under " ++ key.text
  | startFlags flagged start =>
    "start flags [" ++ String.intercalate ", " (flagged.map listedKey) ++
      "] disagree with start " ++
      match start with
      | some key => "Some(" ++ listedKey key ++ ")"
      | none => "None"
  | noSource c => "edge source " ++ c.text ++ " missing"
  | noDestination c => "edge destination " ++ c.text ++ " missing"
  | notListed e =>
    "'" ++ e.label ++ "' edge " ++ e.curve.start.text ++ " -> " ++ e.curve.finish.text ++
      " missing from adjacency"

end Defect

namespace Diagram

def flaggedStarts (d : Diagram) : List StateKey := (d.nodes.filter (·.isStart)).map (·.key)

def checkListed (d : Diagram) (key : StateKey) : Except Defect Unit :=
  match d.node? key with
  | none => .error (.notIndexed key)
  | some n => if n.key = key then .ok () else .error (.misfiled n.position key)

def checkStart (d : Diagram) : Except Defect Unit :=
  if d.flaggedStarts = d.start.toList then .ok ()
  else .error (.startFlags d.flaggedStarts d.start)

def checkEdge (d : Diagram) (e : Edge) : Except Defect Unit :=
  match d.node? e.sourceKey with
  | none => .error (.noSource e.curve.start)
  | some source =>
    match d.node? e.destinationKey with
    | none => .error (.noDestination e.curve.finish)
    | some _ =>
      if e.destinationKey ∈ source.destinations e.label then .ok () else .error (.notListed e)

/-- Answers the first disagreement found, if any. -/
def verify (d : Diagram) : Except Defect Unit := do
  if d.order.length ≠ d.index.size then throw (.counts d.order.length d.index.size)
  d.order.forM d.checkListed
  d.checkStart
  d.edges.forM d.checkEdge

end Diagram

end AutomatonSketch
