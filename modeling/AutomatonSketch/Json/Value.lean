/-! JSON values. Object members keep their order and their repetitions, and numbers the form they
were written in, since a reader of records may mind either. -/

namespace AutomatonSketch

/-- A number as written: `integer` without fraction and exponent, minus zero apart; otherwise the
`coefficient` times a power of ten. -/
inductive Number where
  | integer (z : Int)
  | decimal (negative : Bool) (coefficient : Nat) (exponent : Int)
deriving DecidableEq

inductive Json where
  | null
  | bool (b : Bool)
  | number (n : Number)
  | text (s : String)
  | array (items : List Json)
  | object (members : List (String × Json))

namespace Json

instance : Inhabited Json := ⟨null⟩

mutual

/-- How deep arrays and objects nest in a value. -/
def nesting : Json → Nat
  | array items => nestingItems items + 1
  | object members => nestingMembers members + 1
  | _ => 0

def nestingItems : List Json → Nat
  | [] => 0
  | v :: rest => max v.nesting (nestingItems rest)

def nestingMembers : List (String × Json) → Nat
  | [] => 0
  | m :: rest => max (nestingMember m) (nestingMembers rest)

def nestingMember : String × Json → Nat
  | (_, v) => v.nesting

end

end Json

end AutomatonSketch
