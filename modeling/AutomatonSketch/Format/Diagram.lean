import AutomatonSketch.Diagram.Element
import AutomatonSketch.Json.Diagnosis

/-! The JSON forms of coordinates, curves, states and transitions. -/

namespace AutomatonSketch

open Json

def AxisValue.toJson (a : AxisValue) : Json := .number (.integer a.val)

namespace Coordinate

def toJson (c : Coordinate) : Json := .object [("x", c.x.toJson), ("y", c.y.toJson)]

def ofJson? (j : Json) : Option Coordinate := do
  let r ← Record.of? ["x", "y"] j
  return ⟨← r.required "x" axis?, ← r.required "y" axis?⟩

def schema : Schema := .record "Coordinate" [("x", .required, .axis), ("y", .required, .axis)]

end Coordinate

namespace StateKey

def toJson (k : StateKey) : Json := .text k.text

def ofJson? (j : Json) : Option StateKey := (text? j).map StateKey.mk

end StateKey

namespace Curve

def fieldNames : List String :=
  ["start_point", "control_point_one", "control_point_two", "end_point"]

def toJson (c : Curve) : Json :=
  .object [("start_point", c.start.toJson), ("control_point_one", c.control1.toJson),
    ("control_point_two", c.control2.toJson), ("end_point", c.finish.toJson)]

def ofJson? (j : Json) : Option Curve := do
  let r ← Record.of? fieldNames j
  let start ← r.required "start_point" Coordinate.ofJson?
  let control1 ← r.required "control_point_one" Coordinate.ofJson?
  let control2 ← r.required "control_point_two" Coordinate.ofJson?
  let finish ← r.required "end_point" Coordinate.ofJson?
  return ⟨start, control1, control2, finish⟩

def schema : Schema :=
  .record "BezierCurve" (fieldNames.map fun name => (name, .required, Coordinate.schema))

end Curve

namespace Node

def fieldNames : List String := ["position", "states_connected_to", "is_start", "is_final"]

def outgoingToJson (outgoing : Table String (List StateKey)) : Json :=
  .object (outgoing.entries.map fun e => (e.1, .array (e.2.map StateKey.toJson)))

def fields (n : Node) : List (String × Json) :=
  [("position", n.position.toJson), ("states_connected_to", outgoingToJson n.outgoing),
    ("is_start", .bool n.isStart), ("is_final", .bool n.isFinal)]

def toJson (n : Node) : Json := .object n.fields

def ofJson? (j : Json) : Option Node := do
  let r ← Record.of? fieldNames j
  let position ← r.required "position" Coordinate.ofJson?
  let outgoing ← r.withDefault "states_connected_to" .empty (table? id (list? StateKey.ofJson?))
  let isStart ← r.required "is_start" bool?
  let isFinal ← r.required "is_final" bool?
  return ⟨position, outgoing, isStart, isFinal⟩

def schema : Schema :=
  .record "Node"
    [("position", .required, Coordinate.schema),
      ("states_connected_to", .defaulted, .table (.list .text)), ("is_start", .required, .bool),
      ("is_final", .required, .bool)]

end Node

namespace Edge

def fields (e : Edge) : List (String × Json) :=
  [("curve", e.curve.toJson), ("connection_character", .text e.label)]

def toJson (e : Edge) : Json := .object e.fields

def ofJson? (j : Json) : Option Edge := do
  let r ← Record.of? ["curve", "connection_character"] j
  return ⟨← r.required "curve" Curve.ofJson?, ← r.required "connection_character" text?⟩

def schema : Schema :=
  .record "Edge" [("curve", .required, Curve.schema), ("connection_character", .required, .text)]

end Edge

namespace Element

/-- An element tells its kind in a field beside its own. -/
def toJson : Element → Json
  | node n => .object (("kind", .text "Node") :: n.fields)
  | edge e => .object (("kind", .text "Edge") :: e.fields)

/-- Splits an element into its kind, which an array gives first, and the rest. -/
def kind? : Json → Option (String × Json)
  | .object members =>
    match members.filter (·.1 = "kind") with
    | [(_, .text kind)] => some (kind, .object (members.filter (·.1 ≠ "kind")))
    | _ => none
  | .array (.text kind :: items) => some (kind, .array items)
  | _ => none

/-- Reads an element that stands `depth` levels deep. All of it counts towards the nesting limit. -/
def ofJson? (depth : Nat) (j : Json) : Option Element := do
  guard (isBufferable depth j)
  match ← kind? j with
  | ("Node", j) => (Node.ofJson? j).map node
  | ("Edge", j) => (Edge.ofJson? j).map edge
  | _ => none

end Element

end AutomatonSketch
