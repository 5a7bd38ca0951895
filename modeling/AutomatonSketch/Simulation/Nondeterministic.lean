import AutomatonSketch.Simulation.Deterministic

/-! Searching depth first for an accepting run, epsilon transitions included. -/

namespace AutomatonSketch

/-- A state, and the characters still to be read there. -/
abbrev Situation := Node × List Char

/-- What the search remembers of a situation: the state's key, and how much is still to be read. -/
abbrev Mark := StateKey × Nat

def Situation.mark (s : Situation) : Mark := (s.1.key, s.2.length)

/-- Tries candidates in turn, handing on what has been explored, until one succeeds. -/
def firstSuccess (search : Situation → List Mark → Option (List Node) × List Mark) :
    List Situation → List Mark → Option (List Node) × List Mark
  | [], explored => (none, explored)
  | s :: rest, explored =>
    match search s explored with
    | (some path, explored) => (some path, explored)
    | (none, explored) => firstSuccess search rest explored

namespace StateIndex

def successors (states : StateIndex) (n : Node) (label : String) : List Node :=
  (n.destinations label).filterMap states.get?

/-- The situations one move away, those that consume a character first. -/
def moves (states : StateIndex) : Situation → List Situation
  | (n, []) => (states.successors n epsilon).map (·, [])
  | (n, c :: cs) =>
    (states.successors n (charLabel c)).map (·, cs) ++
      (states.successors n epsilon).map (·, c :: cs)

/-- The states of the first accepting run found, and what has been explored. No situation is
explored twice; `fuel` bounds the length of the run. -/
def search (states : StateIndex) : Nat → Situation → List Mark → Option (List Node) × List Mark
  | 0, _, explored => (none, explored)
  | fuel + 1, s, explored =>
    if s.mark ∈ explored then (none, explored)
    else if s.2 = [] ∧ s.1.isFinal then (some [s.1], s.mark :: explored)
    else
      match firstSuccess (states.search fuel) (states.moves s) (s.mark :: explored) with
      | (some path, explored) => (some (s.1 :: path), explored)
      | (none, explored) => (none, explored)

/-- How many situations an input can lead to, at most. -/
def searchBound (states : StateIndex) (input : List Char) : Nat :=
  states.size * (input.length + 1)

/-- Runs a string as in an NFA. Without an accepting run only the start state was passed. -/
def runNondeterministic (states : StateIndex) (start : StateKey) (input : String) : StringTest :=
  match states.get? start with
  | none => .nowhere
  | some n =>
    let cs := input.toList
    match (states.search (states.searchBound cs) (n, cs) []).1 with
    | some path => ⟨true, path⟩
    | none => ⟨false, [n]⟩

end StateIndex

end AutomatonSketch
