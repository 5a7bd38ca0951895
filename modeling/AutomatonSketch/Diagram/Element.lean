import AutomatonSketch.Geometry.Curve
import AutomatonSketch.Table

/-! The states and transitions of a diagram. -/

namespace AutomatonSketch

/-- The label of transitions that consume nothing. -/
def epsilon : String := "ϵ"

/-- A placed state. `outgoing` lists, for each label, the keys its transitions lead to. -/
structure Node where
  position : Coordinate
  outgoing : Table String (List StateKey)
  isStart : Bool
  isFinal : Bool
deriving DecidableEq, Inhabited

namespace Node

/-- A state without transitions that is not final. -/
def place (position : Coordinate) (isStart : Bool) : Node := ⟨position, .empty, isStart, false⟩

def key (n : Node) : StateKey := n.position.key

/-- The keys that transitions with this label lead to, if there are any. -/
def destinations? (n : Node) (label : String) : Option (List StateKey) := n.outgoing.get? label

def destinations (n : Node) (label : String) : List StateKey := (n.destinations? label).getD []

def isolated (n : Node) : Node := { n with outgoing := .empty }

/-- Adds a destination after those already listed for the label. -/
def link (n : Node) (label : String) (destination : StateKey) : Node :=
  { n with outgoing := n.outgoing.insert label (n.destinations label ++ [destination]) }

end Node

/-- A drawn transition; it runs between the ends of its curve. -/
structure Edge where
  curve : Curve
  label : String
deriving DecidableEq, Inhabited

namespace Edge

/-- A transition that has not left its source. -/
def begin (source : Coordinate) (label : String) : Edge := ⟨.degenerate source, label⟩

def sourceKey (e : Edge) : StateKey := e.curve.start.key

def destinationKey (e : Edge) : StateKey := e.curve.finish.key

def isEpsilon (e : Edge) : Bool := e.label = epsilon

end Edge

inductive Element where
  | node (n : Node)
  | edge (e : Edge)
deriving DecidableEq

namespace Element

def describe : Element → String
  | node n => "state at (" ++ n.key.text ++ ")"
  | edge e => "'" ++ e.label ++ "' edge from (" ++ e.sourceKey.text ++ ") to (" ++
      e.destinationKey.text ++ ")"

end Element

end AutomatonSketch
