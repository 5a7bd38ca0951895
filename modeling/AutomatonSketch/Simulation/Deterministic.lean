import AutomatonSketch.Diagram.Basic

/-! Running a string through the first transition drawn for each character. -/

namespace AutomatonSketch

/-- The outcome of running a string, with the states it passed. -/
structure StringTest where
  accepted : Bool
  traversed : List Node
deriving DecidableEq

namespace StringTest

/-- The outcome where there is no start state. -/
def nowhere : StringTest := ⟨false, []⟩

end StringTest

/-- The label of the transitions that consume a character. -/
def charLabel (c : Char) : String := String.singleton c

namespace StateIndex

/-- The state that the first transition listed for a character leads to. -/
def next? (states : StateIndex) (n : Node) (c : Char) : Option Node :=
  (n.destinations (charLabel c)).head?.bind states.get?

/-- Runs characters from a state. The run stops where there is no transition. -/
def follow (states : StateIndex) (n : Node) : List Char → StringTest
  | [] => ⟨n.isFinal, [n]⟩
  | c :: cs =>
    match states.next? n c with
    | none => ⟨false, [n]⟩
    | some next =>
      let rest := states.follow next cs
      ⟨rest.accepted, n :: rest.traversed⟩

def runDeterministic (states : StateIndex) (start : StateKey) (input : String) : StringTest :=
  match states.get? start with
  | none => .nowhere
  | some n => states.follow n input.toList

end StateIndex

end AutomatonSketch
