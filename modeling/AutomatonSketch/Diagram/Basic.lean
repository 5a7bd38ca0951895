import AutomatonSketch.Diagram.Element
import AutomatonSketch.Diagram.Error

/-! Diagrams: states filed by key, their order of creation, the transitions drawn between them,
and the start state. -/

namespace AutomatonSketch

abbrev StateIndex := Table StateKey Node

namespace StateIndex

def at? (index : StateIndex) (c : Coordinate) : Option Node := index.get? c.key

/-- Files a state under a coordinate; also answers what was filed there before. -/
def set (index : StateIndex) (c : Coordinate) (n : Node) : Option Node × StateIndex :=
  (index.at? c, index.insert c.key n)

/-- Removes the state at a coordinate; also answers what it was. -/
def delete (index : StateIndex) (c : Coordinate) : Option Node × StateIndex :=
  (index.at? c, index.erase c.key)

end StateIndex

/-- A diagram. `order` and `edges` are in order of creation. -/
structure Diagram where
  index : StateIndex
  order : List StateKey
  edges : List Edge
  start : Option StateKey
deriving DecidableEq

namespace Diagram

def empty : Diagram := ⟨.empty, [], [], none⟩

instance : Inhabited Diagram := ⟨empty⟩

def node? (d : Diagram) (key : StateKey) : Option Node := d.index.get? key

def nodeAt? (d : Diagram) (c : Coordinate) : Option Node := d.index.at? c

def nodes (d : Diagram) : List Node := d.order.filterMap d.node?

def nodeCount (d : Diagram) : Nat := d.order.length

def startNode? (d : Diagram) : Option Node := d.start.bind d.node?

def startIndex? (d : Diagram) : Option Nat := d.start.bind fun key => d.order.idxOf? key

def modifyNode (d : Diagram) (key : StateKey) (f : Node → Node) : Diagram :=
  { d with index := d.index.modify key f }

/-- Appends a state; if it is a start state it becomes the start. -/
def insertNode (d : Diagram) (n : Node) : Diagram where
  index := d.index.insert n.key n
  order := d.order ++ [n.key]
  edges := d.edges
  start := if n.isStart then some n.key else d.start

/-- Removes the newest state, provided that `expected` is its key. -/
def popNode (d : Diagram) (expected : StateKey) : Option Node × Diagram :=
  if d.order.getLast? = some expected then
    let shorter := { d with order := d.order.dropLast }
    match expected.coordinate with
    | .error _ => (none, shorter)
    | .ok c =>
      match d.index.delete c with
      | (none, _) => (none, shorter)
      | (some n, index) =>
        (some n,
          { shorter with index, start := if d.start = some expected then none else d.start })
  else (none, d)

/-- Takes the start flag away; also answers which state had it. -/
def takeStart (d : Diagram) : Option StateKey × Diagram :=
  match d.start with
  | none => (none, d)
  | some key =>
    (some key, { d.modifyNode key fun n => { n with isStart := false } with start := none })

/-- Moves the start flag to the state filed under a key; `none` if there is no such state. -/
def restoreStart? (d : Diagram) (key : StateKey) : Option Diagram :=
  match d.node? key with
  | none => none
  | some _ =>
    some { d.takeStart.2.modifyNode key fun n => { n with isStart := true } with start := some key }

/-- Sets or clears the final flag of a state; `none` if there is no such state. -/
def setFinal? (d : Diagram) (key : StateKey) (isFinal : Bool) : Option Diagram :=
  match d.node? key with
  | none => none
  | some _ => some (d.modifyNode key fun n => { n with isFinal })

/-- Appends a transition and lists its destination with its source, if that exists. -/
def pushEdge (d : Diagram) (e : Edge) : Diagram :=
  { d.modifyNode e.sourceKey fun n => n.link e.label e.destinationKey with
    edges := d.edges ++ [e] }

def setEdgeControl? (d : Diagram) (i : Nat) (control : Coordinate) : Option Diagram :=
  match d.edges[i]? with
  | none => none
  | some e =>
    let bent := { e with curve := { e.curve with control1 := control } }
    some { d with edges := d.edges.set i bent }

/-- Removes the first, or the last, of several equal members. -/
def eraseOne (l : List StateKey) (key : StateKey) (newest : Bool) : List StateKey :=
  if newest then (l.reverse.erase key).reverse else l.erase key

/-- Strikes one `destination` from the list of its source, the first one listed or the last. A label
without destinations is not kept. -/
def unlink (d : Diagram) (source destination : StateKey) (label : String) (newest : Bool) :
    Except EditError Diagram :=
  match (d.node? source).bind fun n => n.destinations? label with
  | none => .error (.notLinked source destination label)
  | some listed =>
    if destination ∈ listed then
      let rest := eraseOne listed destination newest
      .ok (d.modifyNode source fun n =>
        { n with
          outgoing :=
            if rest.isEmpty then n.outgoing.erase label else n.outgoing.insert label rest })
    else .error (.notLinked source destination label)

/-- The diagram of states in order of creation, with the destinations they list, and of
transitions. -/
def ofParts (nodes : List Node) (edges : List Edge) : Diagram :=
  { nodes.foldl insertNode empty with edges }

end Diagram

end AutomatonSketch
