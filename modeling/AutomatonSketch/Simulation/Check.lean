import AutomatonSketch.Simulation.Nondeterministic
import AutomatonSketch.Workspace.Options

/-! Checking a string against a diagram as its settings ask. -/

namespace AutomatonSketch

/-- A question: the states, the settings that matter, and the string. -/
structure StringCheck where
  kind : AutomatonKind
  strict : Bool
  alphabet : List String
  states : StateIndex
  start : Option StateKey
  input : Option String
deriving DecidableEq

/-- An answer. `accepted` is `none` where nothing was tested. -/
structure CheckedString where
  dialogue : String
  accepted : Option Bool
  traversed : List Node
deriving DecidableEq

namespace CheckedString

def untested : CheckedString := ⟨"", none, []⟩

def ofTest (test : StringTest) : CheckedString := ⟨"", some test.accepted, test.traversed⟩

end CheckedString

def invalidDfaMessage : String :=
  "Your DFA either does not specify every connection provided in the input alphabet, or specifies them more than once. Update the model or disable strict checking"

/-- Whether every state has one destination for each entry of the alphabet, and as many labels as
the alphabet has entries. -/
def StateIndex.isValidDfa (states : StateIndex) (alphabet : List String) : Bool :=
  states.values.all fun n =>
    n.outgoing.size == alphabet.length &&
      alphabet.all fun label => ((n.destinations? label).map List.length) == some 1

namespace StringCheck

def run (check : StringCheck) : CheckedString :=
  if check.strict ∧ check.kind = .dfa ∧ ¬ check.states.isValidDfa check.alphabet then
    ⟨invalidDfaMessage, none, []⟩
  else
    match check.start, check.input with
    | some start, some input =>
      .ofTest <|
        match check.kind with
        | .dfa => check.states.runDeterministic start input
        | .nfa => check.states.runNondeterministic start input
    | _, _ => .untested

end StringCheck

end AutomatonSketch
