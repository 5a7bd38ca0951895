import AutomatonSketch.Json.Binary64

/-! What can be wrong with a JSON text, and where. -/

namespace AutomatonSketch.Json

/-- A place in a text: a line, and how many bytes of it come before. -/
structure Place where
  line : Nat
  column : Nat
deriving DecidableEq

inductive Construct where
  | list
  | object
  | string
  | value
deriving DecidableEq

/-- What stands where something else should. A fraction is given by its text. -/
inductive Found where
  | null
  | bool (b : Bool)
  | integer (z : Int)
  | fraction (shown : String)
  | text (s : String)
  | list
  | object
  | bareName
deriving DecidableEq

inductive Fault where
  | endOfText (inside : Construct)
  | noColon
  | noComma (inside : Construct)
  | noWord
  | noValue
  | trailingComma
  | trailingCharacters
  | keyNotText
  | badNumber
  | numberTooLarge
  | badEscape
  | controlCharacter
  | loneSurrogate
  | unfinishedSurrogate
  | tooDeep
  | wrongType (found : Found) (expected : String)
  | wrongValue (found : Found) (expected : String)
  | wrongLength (length : Nat) (expected : String)
  | missingField (name : String)
  | repeatedField (name : String)
  | unknownName (name : String) (known : List String)
deriving DecidableEq

structure Problem where
  fault : Fault
  place : Option Place
deriving DecidableEq

namespace Construct

def phrase : Construct → String
  | list => "a list"
  | object => "an object"
  | string => "a string"
  | value => "a value"

end Construct

namespace Found

/-- A character of a quoted text; controls are given by number. -/
def quotedChar (c : Char) : List Char :=
  if c = '"' ∨ c = '\\' then ['\\', c]
  else if c = '\n' then ['\\', 'n']
  else if c = '\r' then ['\\', 'r']
  else if c = '\t' then ['\\', 't']
  else if c = '\x00' then ['\\', '0']
  else if c.toNat < 0x20 ∨ c.toNat = 0x7f then
    ['\\', 'u', '\x7b'] ++ Nat.toDigits 16 c.toNat ++ ['\x7d']
  else [c]

def phrase : Found → String
  | null => "null"
  | bool true => "boolean `true`"
  | bool false => "boolean `false`"
  | integer z => "integer `" ++ String.ofList (Numeral.ofInt z) ++ "`"
  | fraction shown => "floating point `" ++ shown ++ "`"
  | text s => "string \"" ++ String.ofList (s.toList.flatMap quotedChar) ++ "\""
  | list => "sequence"
  | object => "map"
  | bareName => "unit variant"

/-- A number; an integer is one if it fits into 64 bits, with or without a sign. -/
def ofNumber (n : Number) : Found :=
  match n with
  | .integer z =>
    if -9223372036854775808 ≤ z ∧ z < 18446744073709551616 then integer z
    else fraction (Binary64.text n.toFloat)
  | .decimal .. => fraction (Binary64.text n.toFloat)

def ofJson : Json → Found
  | .null => null
  | .bool b => bool b
  | .number n => ofNumber n
  | .text s => text s
  | .array _ => list
  | .object _ => object

end Found

namespace Fault

def alternatives (known : List String) : String :=
  match known.map fun name => "`" ++ name ++ "`" with
  | [] => "there are no variants"
  | [a] => "expected " ++ a
  | [a, b] => "expected " ++ a ++ " or " ++ b
  | names => "expected one of " ++ String.intercalate ", " names

def message : Fault → String
  | endOfText inside => "EOF while parsing " ++ inside.phrase
  | noColon => "expected `:`"
  | noComma .list => "expected `,` or `]`"
  | noComma _ => "expected `,` or `\x7d`"
  | noWord => "expected ident"
  | noValue => "expected value"
  | trailingComma => "trailing comma"
  | trailingCharacters => "trailing characters"
  | keyNotText => "key must be a string"
  | badNumber => "invalid number"
  | numberTooLarge => "number out of range"
  | badEscape => "invalid escape"
  | controlCharacter => "control character (\\u0000-\\u001F) found while parsing a string"
  | loneSurrogate => "lone leading surrogate in hex escape"
  | unfinishedSurrogate => "unexpected end of hex escape"
  | tooDeep => "recursion limit exceeded"
  | wrongType found expected => "invalid type: " ++ found.phrase ++ ", expected " ++ expected
  | wrongValue found expected => "invalid value: " ++ found.phrase ++ ", expected " ++ expected
  | wrongLength length expected =>
    "invalid length " ++ Numeral.text length ++ ", expected " ++ expected
  | missingField name => "missing field `" ++ name ++ "`"
  | repeatedField name => "duplicate field `" ++ name ++ "`"
  | unknownName name known => "unknown variant `" ++ name ++ "`, " ++ alternatives known

end Fault

namespace Problem

def message (p : Problem) : String :=
  match p.place with
  | none => p.fault.message
  | some place =>
    p.fault.message ++ " at line " ++ Numeral.text place.line ++ " column " ++
      Numeral.text place.column

end Problem

end AutomatonSketch.Json
