import AutomatonSketch.Json.Diagnosis
import AutomatonSketch.Json.Writer
import AutomatonSketch.ParseTree.Basic

/-! The JSON form of parse trees: an object with one member, named for the kind of token. -/

namespace AutomatonSketch

open Json

namespace ParseTree

def orName : String := "OrOperator"

def concatenationName : String := "ConcatenatedExpression"

def kleeneName : String := "KleeneOperator"

def binaryNames : List String :=
  ["operator_character", "operator_name", "left_argument", "right_argument"]

def unaryNames : List String := ["operator_character", "operator_name", "inner_argument"]

/-- The fields that all operators have, before their operands. -/
def operatorFields (symbol name : String) (operands : List (String × Json)) : Json :=
  .object (("operator_character", .text symbol) :: ("operator_name", .text name) :: operands)

mutual

def toJson : ParseTree → Json
  | .literal character => .object [("Literal", .text character)]
  | .or symbol name left right =>
    .object [(orName, operatorFields symbol name
      [("left_argument", operandToJson left), ("right_argument", operandToJson right)])]
  | .concatenation symbol name left right =>
    .object [(concatenationName, operatorFields symbol name
      [("left_argument", operandToJson left), ("right_argument", operandToJson right)])]
  | .kleene symbol name inner =>
    .object [(kleeneName, operatorFields symbol name [("inner_argument", operandToJson inner)])]

/-- A missing operand is `null`. -/
def operandToJson : Option ParseTree → Json
  | none => .null
  | some t => t.toJson

end

/-- Reads an operator with two operands, which `read` reads. -/
def binaryOfJson? (read : Json → Option ParseTree)
    (make : String → String → Option ParseTree → Option ParseTree → ParseTree) (j : Json) :
    Option ParseTree := do
  let r ← Record.of? binaryNames j
  let symbol ← r.required "operator_character" text?
  let name ← r.withDefault "operator_name" "" text?
  let left ← r.optional "left_argument" read
  let right ← r.optional "right_argument" read
  return make symbol name left right

def unaryOfJson? (read : Json → Option ParseTree) (j : Json) : Option ParseTree := do
  let r ← Record.of? unaryNames j
  let symbol ← r.required "operator_character" text?
  let name ← r.withDefault "operator_name" "" text?
  let inner ← r.optional "inner_argument" read
  return kleene symbol name inner

/-- Reads a tree that may nest `budget` levels deep. An operator takes two levels. -/
def ofJson? : Nat → Json → Option ParseTree
  | _ + 1, .object [("Literal", .text character)] => some (literal character)
  | budget + 2, .object [(kind, body)] =>
    if kind = orName then binaryOfJson? (ofJson? budget) or body
    else if kind = concatenationName then binaryOfJson? (ofJson? budget) concatenation body
    else if kind = kleeneName then unaryOfJson? (ofJson? budget) body
    else none
  | _, _ => none

def toText (t : ParseTree) : String := t.toJson.toText

def ofText? (s : String) : Option ParseTree := (Json.ofText? s).bind (ofJson? nestingLimit)

def operatorSchema (name : String) (operands : List String) : Schema :=
  .record name
    (("operator_character", .required, .text) :: ("operator_name", .defaulted, .text) ::
      operands.map fun operand => (operand, .nullable, .optional .whole))

def binarySchema : Schema := operatorSchema "BinaryOperator" ["left_argument", "right_argument"]

def schema : Schema :=
  .variant
    [("Literal", .text), (orName, binarySchema), (concatenationName, binarySchema),
      (kleeneName, operatorSchema "UnaryOperator" ["inner_argument"])]

def ofText (s : String) : Except Problem ParseTree :=
  match ofText? s with
  | some t => .ok t
  | none => .error (schema.problem s)

end ParseTree

end AutomatonSketch
