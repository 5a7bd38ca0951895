import AutomatonSketch.Geometry.Curve
import AutomatonSketch.ParseTree.Basic

/-! Laying out a parse tree: every token under its parent, joined to it by a curve. -/

namespace AutomatonSketch

structure PlacedToken where
  position : Point
  label : String
  kind : TokenKind
  /-- The distance from the root. -/
  depth : Nat
deriving DecidableEq

/-- The tokens in pre-order, and the curves that join each to its parent. -/
structure TreeLayout where
  tokens : List PlacedToken
  links : List Curve
deriving DecidableEq

namespace TreeLayout

/-- A power of a number by repeated squaring, the low bits of the exponent first. -/
def power (result base : Float32) (n : Nat) : Float32 :=
  if h : n = 0 then result
  else
    let result := if n % 2 = 1 then result * base else result
    if n / 2 = 0 then result else power result (base * base) (n / 2)
termination_by n

/-- How far a token at this depth spreads its operands to either side. -/
def spread (depth : Nat) : Float32 := 250 / power 1 1.5 depth

def levelHeight : Float32 := 175

def tokenRadius : Float32 := 35

/-- The gap between the tip of a link and the token it leads to. -/
def arrowGap : Float32 := 6

/-- Where an operand stands that is `side` spreads off its parent. -/
def operandPosition (parent : Point) (depth : Nat) (side : Float32) : Point :=
  ⟨parent.x + side * spread depth, parent.y + levelHeight⟩

/-- The curve from under a parent to just above its operand. -/
def link (parent child : Point) : Curve :=
  let start := (Point.mk parent.x (parent.y + tokenRadius)).round
  let finish := (Point.mk child.x (parent.y + (levelHeight - tokenRadius - arrowGap))).round
  ⟨start, start, finish, finish⟩

/-- A token, then its operands with their links. -/
def join (tree : ParseTree) (position : Point) (depth : Nat)
    (operands : List (Point × TreeLayout)) : TreeLayout where
  tokens := ⟨position, tree.label, tree.kind, depth⟩ :: operands.flatMap (·.2.tokens)
  links := operands.flatMap fun o => link position o.1 :: o.2.links

mutual

/-- Lays out a tree whose root stands at a point, at a depth. -/
def place (position : Point) (depth : Nat) : ParseTree → TreeLayout
  | .literal c => join (.literal c) position depth []
  | .or symbol name left right =>
    join (.or symbol name left right) position depth
      (placeOperand position depth (if right.isSome then -1 else 0) left ++
        placeOperand position depth (if left.isSome then 1 else 0) right)
  | .concatenation symbol name left right =>
    join (.concatenation symbol name left right) position depth
      (placeOperand position depth (if right.isSome then -1 else 0) left ++
        placeOperand position depth (if left.isSome then 1 else 0) right)
  | .kleene symbol name inner =>
    join (.kleene symbol name inner) position depth (placeOperand position depth 0 inner)

/-- Lays out an operand, if it is present, on one side of its parent. -/
def placeOperand (parent : Point) (depth : Nat) (side : Float32) :
    Option ParseTree → List (Point × TreeLayout)
  | none => []
  | some t =>
    let position := operandPosition parent depth side
    [(position, place position (depth + 1) t)]

end

end TreeLayout

/-- Lays out a tree with its root at a coordinate. -/
def ParseTree.layout (t : ParseTree) (root : Coordinate) : TreeLayout :=
  TreeLayout.place (.ofCoordinate root) 0 t

end AutomatonSketch
