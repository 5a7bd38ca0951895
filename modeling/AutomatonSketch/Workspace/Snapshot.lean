import AutomatonSketch.Diagram.Basic
import AutomatonSketch.Json.Fault
import AutomatonSketch.Workspace.Options

/-! Snapshots of a diagram and its settings, as they are saved and restored. -/

namespace AutomatonSketch

/-- A saved workspace. Its parts need not fit together until it is restored. -/
structure Snapshot where
  startIndex : Option Nat
  startKey : Option StateKey
  states : StateIndex
  nodes : List Node
  edges : List Edge
  options : WorkspaceOptions
deriving DecidableEq

/-- Why a workspace cannot be restored. -/
inductive WorkspaceError where
  | unreadable (problem : Json.Problem)
  | misfiled (listed actual : StateKey)
  | sharedPosition (key : StateKey)
  | dangling (source destination : StateKey) (label : String)
  | manyStarts (first second : StateKey)
deriving DecidableEq

namespace WorkspaceError

def message : WorkspaceError → String
  | unreadable problem => "Invalid workspace JSON: " ++ problem.message
  | misfiled listed actual =>
    "Node key " ++ listed.text ++ " does not match its position " ++ actual.text
  | sharedPosition key => "Two nodes occupy " ++ key.text
  | dangling source destination label =>
    "Transition '" ++ label ++ "' from " ++ source.text ++ " to " ++ destination.text ++
      " does not connect two nodes"
  | manyStarts first second =>
    "More than one start node (" ++ first.text ++ " and " ++ second.text ++ ")"

end WorkspaceError

namespace Snapshot

instance : Inhabited Snapshot := ⟨⟨none, none, .empty, [], [], .initial⟩⟩

def capture (d : Diagram) (options : WorkspaceOptions) : Snapshot :=
  ⟨d.startIndex?, d.start, d.index, d.nodes, d.edges, options⟩

/-- Every state is filed under its own key. -/
def checkFiling : List (StateKey × Node) → Except WorkspaceError Unit
  | [] => .ok ()
  | (listed, n) :: rest =>
    if listed = n.key then checkFiling rest else .error (.misfiled listed n.key)

/-- No two states share a position, and at most one is flagged as start. -/
def checkNodes (seen : List StateKey) (start : Option StateKey) :
    List Node → Except WorkspaceError Unit
  | [] => .ok ()
  | n :: rest =>
    if n.key ∈ seen then .error (.sharedPosition n.key)
    else if n.isStart then
      match start with
      | some first => .error (.manyStarts first n.key)
      | none => checkNodes (n.key :: seen) (some n.key) rest
    else checkNodes (n.key :: seen) start rest

/-- Every transition connects two of the states. -/
def checkEdges (keys : List StateKey) : List Edge → Except WorkspaceError Unit
  | [] => .ok ()
  | e :: rest =>
    if e.sourceKey ∈ keys ∧ e.destinationKey ∈ keys then checkEdges keys rest
    else .error (.dangling e.sourceKey e.destinationKey e.label)

def check (s : Snapshot) : Except WorkspaceError Unit := do
  checkFiling s.states.entries
  checkNodes [] none s.nodes
  checkEdges (s.nodes.map (·.key)) s.edges

/-- The diagram of the listed states and transitions. What the states list as destinations is made
anew from the transitions. -/
def diagram (s : Snapshot) : Diagram :=
  s.edges.foldl Diagram.pushEdge (Diagram.ofParts (s.nodes.map Node.isolated) [])

def restore (s : Snapshot) : Except WorkspaceError Diagram :=
  match s.check with
  | .ok () => .ok s.diagram
  | .error e => .error e

end Snapshot

end AutomatonSketch
