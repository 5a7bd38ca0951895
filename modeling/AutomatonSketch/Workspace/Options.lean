import AutomatonSketch.Text.Blank

/-! The settings of a workspace. -/

namespace AutomatonSketch

inductive AutomatonKind where
  | dfa
  | nfa
deriving DecidableEq, Inhabited

namespace AutomatonKind

def name : AutomatonKind → String
  | dfa => "DFA"
  | nfa => "NFA"

end AutomatonKind

structure WorkspaceOptions where
  kind : AutomatonKind
  /-- The characters that every state of a strict DFA has a transition for. -/
  alphabet : List String
  /-- Whether strings are tested on strict DFAs only. -/
  strict : Bool
  /-- Whether the states that a tested string passes are highlighted. -/
  showTraversal : Bool
  /-- The label of new transitions. -/
  edgeLabel : String
deriving DecidableEq

namespace WorkspaceOptions

def initial : WorkspaceOptions := ⟨.dfa, ["a", "b"], false, true, "a"⟩

instance : Inhabited WorkspaceOptions := ⟨initial⟩

end WorkspaceOptions

namespace Alphabet

/-- The character that an entry consists of, blanks around it apart. -/
def character? (entry : String) : Option Char :=
  match trimChars entry.toList with
  | [c] => some c
  | _ => none

/-- Leaves out whatever occurred before. -/
def keepFirst : List Char → List Char
  | [] => []
  | c :: cs => c :: (keepFirst cs).filter (· ≠ c)

/-- Keeps the entries of exactly one character, each at its first occurrence. -/
def sanitize (entries : List String) : List String :=
  (keepFirst (entries.filterMap character?)).map String.singleton

def fieldText (alphabet : List String) : String := String.intercalate ", " alphabet

theorem mem_keepFirst {c : Char} {cs : List Char} : c ∈ keepFirst cs ↔ c ∈ cs := by
  induction cs with
  | nil => simp [keepFirst]
  | cons a cs ih =>
    by_cases h : c = a <;> simp [keepFirst, ih, h]

theorem nodup_keepFirst (cs : List Char) : (keepFirst cs).Nodup := by
  induction cs with
  | nil => simp [keepFirst]
  | cons a cs ih => exact List.nodup_cons.2 ⟨by simp, ih.filter _⟩

end Alphabet

end AutomatonSketch
