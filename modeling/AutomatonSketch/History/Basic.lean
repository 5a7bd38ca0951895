import AutomatonSketch.History.Edit

/-! The history of a diagram: edits made and edits taken back. -/

namespace AutomatonSketch

/-- Two stacks of edits, the next one to take back and the next one to make again in front. -/
structure History where
  undoStack : List Edit
  redoStack : List Edit
deriving DecidableEq

namespace History

def empty : History := ⟨[], []⟩

instance : Inhabited History := ⟨empty⟩

/-- The edits in force, oldest first. -/
def applied (h : History) : List Edit := h.undoStack.reverse

def canUndo (h : History) : Bool := !h.undoStack.isEmpty

def canRedo (h : History) : Bool := !h.redoStack.isEmpty

/-- Records an edit just made; what had been taken back is lost. -/
def record (h : History) (edit : Edit) : History := ⟨edit :: h.undoStack, []⟩

/-- Takes the newest edit back. One that does not fit the diagram is dropped. -/
def undo (h : History) (d : Diagram) : Option Edit × History × Diagram :=
  match h.undoStack with
  | [] => (none, h, d)
  | edit :: older =>
    match d.revert edit with
    | (some reverted, d) => (some reverted, ⟨older, reverted :: h.redoStack⟩, d)
    | (none, d) => (none, ⟨older, h.redoStack⟩, d)

/-- Makes the edit taken back last again. One that does not fit the diagram is dropped. -/
def redo (h : History) (d : Diagram) : Option Edit × History × Diagram :=
  match h.redoStack with
  | [] => (none, h, d)
  | edit :: later =>
    match d.reapply edit with
    | (some reapplied, d) => (some reapplied, ⟨reapplied :: h.undoStack, later⟩, d)
    | (none, d) => (none, ⟨h.undoStack, later⟩, d)

/-- Takes everything back at once; it can be made again edit by edit. -/
def discardAll (h : History) : History := ⟨[], h.applied⟩

/-- The edits that make up a diagram: its states in order of creation, then its transitions. -/
def contents (d : Diagram) : List Edit :=
  d.nodes.map (fun n => .placeNode n.isolated none) ++ d.edges.map .completeEdge

/-- The history of a diagram that was not drawn but read. -/
def ofDiagram (d : Diagram) : History := ⟨(contents d).reverse, []⟩

end History

end AutomatonSketch
