import AutomatonSketch.Json.Number

/-! JSON text, one item or member a line, two blanks deeper at each level. -/

namespace AutomatonSketch.Json

def hexDigit (n : Nat) : Char := Nat.digitChar n

/-- A character inside quotes. -/
def escapeChar (c : Char) : List Char :=
  if c = '"' ∨ c = '\\' then ['\\', c]
  else if c = '\x08' then ['\\', 'b']
  else if c = '\x0c' then ['\\', 'f']
  else if c = '\n' then ['\\', 'n']
  else if c = '\r' then ['\\', 'r']
  else if c = '\t' then ['\\', 't']
  else if c.toNat < 0x20 then
    ['\\', 'u', '0', '0', hexDigit (c.toNat / 16), hexDigit (c.toNat % 16)]
  else [c]

def quoted (s : String) : List Char := '"' :: (s.toList.flatMap escapeChar ++ ['"'])

/-- A decimal number in full if its exponent is small, else with an exponent. -/
def decimalChars (negative : Bool) (coefficient : Nat) (exponent : Int) : List Char :=
  let sign := if negative then ['-'] else []
  let digits := Nat.toDigits 10 coefficient
  match exponent with
  | .ofNat 0 => if coefficient = 0 ∧ negative then ['-', '0'] else sign ++ digits ++ ['.', '0']
  | .ofNat e => sign ++ digits ++ 'e' :: Nat.toDigits 10 e
  | .negSucc e =>
    let places := e + 1
    let padded := List.replicate (places + 1 - digits.length) '0' ++ digits
    sign ++ padded.take (padded.length - places) ++ '.' :: padded.drop (padded.length - places)

def numberChars : Number → List Char
  | .integer z => Numeral.ofInt z
  | .decimal negative coefficient exponent => decimalChars negative coefficient exponent

def lineBreak (depth : Nat) : List Char := '\n' :: List.replicate (2 * depth) ' '

mutual

/-- The text of a value that stands `depth` levels deep. -/
def chars (depth : Nat) : Json → List Char
  | .null => ['n', 'u', 'l', 'l']
  | .bool true => ['t', 'r', 'u', 'e']
  | .bool false => ['f', 'a', 'l', 's', 'e']
  | .number n => numberChars n
  | .text s => quoted s
  | .array [] => ['[', ']']
  | .array (v :: vs) =>
    '[' :: lineBreak (depth + 1) ++ v.chars (depth + 1) ++ itemChars (depth + 1) vs ++
      lineBreak depth ++ [']']
  | .object [] => ['{', '}']
  | .object (m :: ms) =>
    '{' :: lineBreak (depth + 1) ++ memberChars (depth + 1) m ++ membersChars (depth + 1) ms ++
      lineBreak depth ++ ['}']

/-- The items after the first. -/
def itemChars (depth : Nat) : List Json → List Char
  | [] => []
  | v :: vs => ',' :: lineBreak depth ++ v.chars depth ++ itemChars depth vs

/-- The members after the first. -/
def membersChars (depth : Nat) : List (String × Json) → List Char
  | [] => []
  | m :: ms => ',' :: lineBreak depth ++ memberChars depth m ++ membersChars depth ms

def memberChars (depth : Nat) : String × Json → List Char
  | (key, v) => quoted key ++ ':' :: ' ' :: v.chars depth

end

def toText (v : Json) : String := String.ofList (v.chars 0)

end AutomatonSketch.Json
