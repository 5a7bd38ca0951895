import AutomatonSketch.Coordinate

/-! Why an edit is refused. -/

namespace AutomatonSketch

/-- What a click had to hit. -/
inductive Target where
  | finalNode
  | edgeStart
  | edgeEnd
deriving DecidableEq

inductive EditError where
  | occupied (key : StateKey)
  | alreadyFinal (key : StateKey)
  | noNode (key : StateKey) (target : Target)
  | noPendingEdge
  | notLinked (source destination : StateKey) (label : String)
deriving DecidableEq

namespace EditError

def message : EditError → String
  | occupied _ => "You cannot place a Node on top of another Node."
  | alreadyFinal _ => "The Node is already a final Node."
  | noNode _ .finalNode => "You must make an existing Node a final Node."
  | noNode _ .edgeStart => "You must place an arrow on top of a Node."
  | noNode _ .edgeEnd => "The arrow must point to a valid Node."
  | noPendingEdge => "Choose where the arrow starts before choosing where it ends."
  | notLinked source destination label =>
    "No '" ++ label ++ "' transition from " ++ source.text ++ " to " ++ destination.text ++
      " is recorded."

end EditError

end AutomatonSketch
