/-! Parse trees of regular expressions. -/

namespace AutomatonSketch

/-- A parse tree. Operators carry the symbol they are drawn with and a name; their operands may be
missing. -/
inductive ParseTree where
  | literal (character : String)
  | or (symbol name : String) (left right : Option ParseTree)
  | concatenation (symbol name : String) (left right : Option ParseTree)
  | kleene (symbol name : String) (inner : Option ParseTree)

inductive TokenKind where
  | literal
  | or
  | concatenation
  | kleene
deriving DecidableEq

namespace ParseTree

instance : Inhabited ParseTree := ⟨literal ""⟩

def alternative (left right : ParseTree) : ParseTree := or "+" "Or" (some left) (some right)

def concat (left right : ParseTree) : ParseTree :=
  concatenation "⋅" "Concatenated Expressions" (some left) (some right)

def star (inner : ParseTree) : ParseTree := kleene "*" "Kleene Star" (some inner)

def label : ParseTree → String
  | literal character => character
  | or symbol _ _ _ => symbol
  | concatenation symbol _ _ _ => symbol
  | kleene symbol _ _ => symbol

def kind : ParseTree → TokenKind
  | literal _ => .literal
  | or .. => .or
  | concatenation .. => .concatenation
  | kleene .. => .kleene

/-- The operands that are present, from left to right. -/
def children : ParseTree → List ParseTree
  | literal _ => []
  | or _ _ left right => left.toList ++ right.toList
  | concatenation _ _ left right => left.toList ++ right.toList
  | kleene _ _ inner => inner.toList

mutual

def size : ParseTree → Nat
  | literal _ => 1
  | or _ _ left right => 1 + operandSize left + operandSize right
  | concatenation _ _ left right => 1 + operandSize left + operandSize right
  | kleene _ _ inner => 1 + operandSize inner

def operandSize : Option ParseTree → Nat
  | none => 0
  | some t => t.size

end

end ParseTree

end AutomatonSketch
