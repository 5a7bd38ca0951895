import AutomatonSketch.AxisValue
import AutomatonSketch.Text.Blank
import AutomatonSketch.Text.Numeral
import AutomatonSketch.Text.Split

/-! Points of the integer grid and the keys that name them. -/

namespace AutomatonSketch

/-- A point of the integer grid. States with equal coordinates are the same state. -/
structure Coordinate where
  x : AxisValue
  y : AxisValue
deriving DecidableEq, Inhabited

/-- The text a state is filed under. Any text can be a key; that of a coordinate is `"x,y"`. -/
structure StateKey where
  text : String
deriving DecidableEq, Inhabited

instance : Ord StateKey := ⟨compareOn StateKey.text⟩

instance : Std.TransOrd StateKey := inferInstanceAs (Std.TransCmp (compareOn StateKey.text))

instance : Std.LawfulEqOrd StateKey where
  compare_self {a} := by
    have h : compare a.text a.text = .eq := Std.ReflCmp.compare_self
    exact h
  eq_of_compare {a b} h := by
    have ht : compare a.text b.text = .eq := h
    have ht := Std.LawfulEqCmp.eq_of_compare ht
    cases a; cases b; simpa using ht

/-- A text that names no coordinate. -/
structure InvalidKey where
  text : String
deriving DecidableEq

namespace InvalidKey

def message (e : InvalidKey) : String := "'" ++ e.text ++ "' is not a valid coordinate key"

end InvalidKey

namespace Coordinate

def of (x y : Int) : Coordinate := ⟨.clamp x, .clamp y⟩

def text (c : Coordinate) : String :=
  String.ofList (Numeral.ofInt c.x.val ++ ',' :: Numeral.ofInt c.y.val)

def key (c : Coordinate) : StateKey := ⟨c.text⟩

/-- Moves a coordinate, stopping at the ends of either axis. -/
def offset (c : Coordinate) (dx dy : AxisValue) : Coordinate := ⟨c.x.shift dx, c.y.shift dy⟩

/-- Reads one half of a key: a numeral in range, with blanks around it. -/
def readHalf? (cs : List Char) : Option AxisValue :=
  (Numeral.integer? (trimChars cs)).bind AxisValue.ofInt?

/-- Reads two numerals with a comma between them. -/
def read? (cs : List Char) : Option Coordinate := do
  let (before, after) ← splitFirst ',' cs
  let x ← readHalf? before
  let y ← readHalf? after
  return ⟨x, y⟩

def ofText (s : String) : Except InvalidKey Coordinate :=
  match read? s.toList with
  | some c => .ok c
  | none => .error ⟨s⟩

end Coordinate

namespace StateKey

def coordinate (k : StateKey) : Except InvalidKey Coordinate := Coordinate.ofText k.text

end StateKey

end AutomatonSketch
