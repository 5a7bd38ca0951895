import AutomatonSketch.Format.Diagram
import AutomatonSketch.Simulation.Check

/-! The JSON forms of the outcomes of tests. -/

namespace AutomatonSketch

open Json

namespace StringTest

def toJson (t : StringTest) : Json :=
  .object [("accepted", .bool t.accepted),
    ("states_traversed", .array (t.traversed.map Node.toJson))]

def ofJson? (j : Json) : Option StringTest := do
  let r ← Record.of? ["accepted", "states_traversed"] j
  return ⟨← r.required "accepted" bool?, ← r.required "states_traversed" (list? Node.ofJson?)⟩

end StringTest

namespace CheckedString

def toJson (c : CheckedString) : Json :=
  .object [("dialogue", .text c.dialogue), ("is_string_accepted", ofOption .bool c.accepted),
    ("states_traversed", .array (c.traversed.map Node.toJson))]

def ofJson? (j : Json) : Option CheckedString := do
  let r ← Record.of? ["dialogue", "is_string_accepted", "states_traversed"] j
  let dialogue ← r.required "dialogue" text?
  let accepted ← r.optional "is_string_accepted" bool?
  let traversed ← r.required "states_traversed" (list? Node.ofJson?)
  return ⟨dialogue, accepted, traversed⟩

end CheckedString

end AutomatonSketch
