import AutomatonSketch.Json.Token

/-! JSON values read from their tokens. -/

namespace AutomatonSketch.Json

mutual

/-- Reads one value; `fuel` bounds the number of tokens read. -/
def value? : Nat → List Token → Option (Json × List Token)
  | 0, _ => none
  | _ + 1, .null :: rest => some (.null, rest)
  | _ + 1, .bool b :: rest => some (.bool b, rest)
  | _ + 1, .number n :: rest => some (.number n, rest)
  | _ + 1, .text s :: rest => some (.text s, rest)
  | _ + 1, .openArray :: .closeArray :: rest => some (.array [], rest)
  | fuel + 1, .openArray :: rest =>
    (items? fuel rest).map fun (items, rest) => (.array items, rest)
  | _ + 1, .openObject :: .closeObject :: rest => some (.object [], rest)
  | fuel + 1, .openObject :: rest =>
    (members? fuel rest).map fun (members, rest) => (.object members, rest)
  | _ + 1, _ => none

/-- Reads items up to the end of their array; at least one. -/
def items? : Nat → List Token → Option (List Json × List Token)
  | 0, _ => none
  | fuel + 1, tokens =>
    match value? fuel tokens with
    | some (v, .comma :: rest) => (items? fuel rest).map fun (vs, rest) => (v :: vs, rest)
    | some (v, .closeArray :: rest) => some ([v], rest)
    | _ => none

/-- Reads members up to the end of their object; at least one. -/
def members? : Nat → List Token → Option (List (String × Json) × List Token)
  | fuel + 1, .text key :: .colon :: tokens =>
    match value? fuel tokens with
    | some (v, .comma :: rest) => (members? fuel rest).map fun (ms, rest) => ((key, v) :: ms, rest)
    | some (v, .closeObject :: rest) => some ([(key, v)], rest)
    | _ => none
  | _, _ => none

end

def ofTokens? (tokens : List Token) : Option Json :=
  match value? (tokens.length + 1) tokens with
  | some (v, []) => some v
  | _ => none

/-- Reads a text that holds one value and blanks around it. -/
def ofText? (s : String) : Option Json := (Token.ofChars? s.toList).bind ofTokens?

end AutomatonSketch.Json
