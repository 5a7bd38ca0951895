import AutomatonSketch.Json.Cursor
import AutomatonSketch.Json.Reader
import AutomatonSketch.Json.Record
import AutomatonSketch.Json.Schema

/-! Finding the first fault of a text that should hold a value of a schema. -/

namespace AutomatonSketch.Json

namespace Cursor

/-- Where reading resumes after an attempt to leave a list or an object. -/
def afterClosing (c : Cursor) (close : Char) : Cursor :=
  let c := c.skipBlanks
  if c.peek? = some close then c.tail
  else if close = ']' ∧ c.peek? = some ',' then c.tail.skipBlanks
  else c

def closeList (c : Cursor) : Scan :=
  let c := c.skipBlanks
  match c.peek? with
  | some ']' => .ok c.tail
  | some ',' =>
    let c := c.tail.skipBlanks
    c.stopNext (if c.peek? = some ']' then .trailingComma else .trailingCharacters)
  | some _ => c.stopNext .trailingCharacters
  | none => c.stop (.endOfText .list)

def closeObject (c : Cursor) : Scan :=
  let c := c.skipBlanks
  match c.peek? with
  | some '}' => .ok c.tail
  | some ',' => c.stopNext .trailingComma
  | some _ => c.stopNext .trailingCharacters
  | none => c.stop (.endOfText .object)

/-- Reads a list or an object whose inside `body` reads. A fault without a place gets that behind
it. `depth` is how many levels may nest here. -/
def enclosed (c : Cursor) (depth : Nat) (close : Char) (body : Cursor → Scan) : Scan :=
  if depth = 0 then c.stopNext .tooDeep
  else
    match body c.tail with
    | .ok c => if close = ']' then c.closeList else c.closeObject
    | .error (.unplaced fault c) => (c.afterClosing close).stop fault
    | .error e => .error e

/-- The next item of a list, if there is one. -/
def nextItem (c : Cursor) (first ignored : Bool) : Except Stop (Option Cursor) :=
  let c := c.skipBlanks
  match c.peek? with
  | none => c.stop (.endOfText .list)
  | some x =>
    if x = ']' then .ok none
    else if first then .ok (some c)
    else if x = ',' then
      let c := c.tail.skipBlanks
      match c.peek? with
      | none => c.stop (.endOfText .value)
      | some x => if x = ']' ∧ ¬ ignored then c.stopNext .trailingComma else .ok (some c)
    else c.stopNext (.noComma .list)

def name (c : Cursor) : Except Stop (Option (String × Cursor)) := do
  if c.peek? = some '"' then return some (← c.quoted) else c.stopNext .keyNotText

def nextName (c : Cursor) (first ignored : Bool) : Except Stop (Option (String × Cursor)) :=
  let c := c.skipBlanks
  match c.peek? with
  | none => c.stop (.endOfText .object)
  | some x =>
    if x = '}' then .ok none
    else if first then c.name
    else if x = ',' then
      let c := c.tail.skipBlanks
      match c.peek? with
      | none => c.stop (.endOfText (if ignored then .object else .value))
      | some x => if x = '}' ∧ ¬ ignored then c.stopNext .trailingComma else c.name
    else c.stopNext (.noComma .object)

def colon (c : Cursor) : Scan :=
  let c := c.skipBlanks
  match c.peek? with
  | some ':' => .ok c.tail
  | some _ => c.stopNext .noColon
  | none => c.stop (.endOfText .object)

/-- Reads the items of a list; `fuel` bounds their number. -/
def items (c : Cursor) (item : Cursor → Scan) (ignored : Bool) : Nat → Bool → Scan
  | 0, _ => .ok c
  | fuel + 1, first => do
    match ← c.nextItem first ignored with
    | none => return c
    | some c => (← item c).items item ignored fuel false

/-- Reads the members of an object, handing on what has been `seen`; `fuel` bounds their number. -/
def members (c : Cursor) (member : σ → String → Cursor → Except Stop (σ × Cursor))
    (ignored : Bool) : Nat → Bool → σ → Except Stop (σ × Cursor)
  | 0, _, seen => .ok (seen, c)
  | fuel + 1, first, seen => do
    match ← c.nextName first ignored with
    | none => return (seen, c)
    | some (name, c) =>
      let (seen, c) ← member seen name c
      c.members member ignored fuel false seen

def eachMember (c : Cursor) (value : Cursor → Scan) (ignored : Bool) : Scan := do
  let member (_ : Unit) (_ : String) (c : Cursor) : Except Stop (Unit × Cursor) := do
    return ((), ← value (← c.colon))
  return (← c.members member ignored c.rest.length true ()).2

/-- What is expected of an array of fields. -/
def arrayPhrase (name : String) (length : Nat) : String :=
  name ++ " with " ++ Numeral.text length ++ (if length = 1 then " element" else " elements")

def fieldsInOrder (c : Cursor) (value : Schema → Cursor → Scan) (expected : String) :
    Nat → Bool → List (String × Presence × Schema) → Scan
  | _, _, [] => .ok c
  | i, first, (_, presence, schema) :: fields => do
    match ← c.nextItem first false with
    | some c => (← value schema c).fieldsInOrder value expected (i + 1) false fields
    | none =>
      if presence = .defaulted then c.fieldsInOrder value expected (i + 1) first fields
      else c.halt (.wrongLength i expected)

/-- Reads a field with its name; none may be repeated. -/
def field (c : Cursor) (value : Cursor → Scan) (seen : List String) (name : String) :
    Except Stop (List String × Cursor) := do
  if name ∈ seen then c.halt (.repeatedField name)
  return (name :: seen, ← value (← c.colon))

def fieldsByName (c : Cursor) (value : Schema → Cursor → Scan)
    (fields : List (String × Presence × Schema)) : Scan := do
  let member (seen : List String) (name : String) (c : Cursor) :
      Except Stop (List String × Cursor) :=
    match Table.find name fields with
    | some (_, schema) => c.field (value schema) seen name
    | none => do return (seen, ← value .ignored (← c.colon))
  let (seen, c) ← c.members member false c.rest.length true []
  match fields.find? fun f => f.2.1 = .required && !seen.contains f.1 with
  | some (missing, _) => c.halt (.missingField missing)
  | none => return c

/-- Reads fields with their names, and has the other members judged. -/
def mixedFields (c : Cursor) (value : Schema → Cursor → Scan) (fields : List (String × Schema))
    (others : List (String × Json) → Option Fault) : Scan := do
  let member (state : List String × List (String × Json)) (name : String) (c : Cursor) :
      Except Stop ((List String × List (String × Json)) × Cursor) := do
    match Table.find name fields with
    | some schema =>
      let (seen, c) ← c.field (value schema) state.1 name
      return ((seen, state.2), c)
    | none =>
      let c ← c.colon
      let last ← value .anything c
      let other := (Token.ofChars? (c.upTo last)).bind ofTokens?
      return ((state.1, state.2 ++ [(name, other.getD .null)]), last)
  let (state, c) ← c.members member false c.rest.length true ([], [])
  match others state.2 with
  | some fault => c.halt fault
  | none => return c

/-- Reads an integer that has to lie in a range. -/
def integer (c : Cursor) (expected : String) (low high : Int) : Scan := do
  match c.peek? with
  | some x =>
    if x = '-' ∨ x.isDigit then
      let (n, c) ← c.number true
      match Found.ofNumber n with
      | .integer z =>
        if low ≤ z ∧ z < high then return c else c.stop (.wrongValue (.integer z) expected)
      | found => c.stop (.wrongType found expected)
    else c.refuse expected
  | none => c.refuse expected

/-- Reads a value whose kind does not matter, with `value` for what is in it. -/
def any (c : Cursor) (depth : Nat) (ignored : Bool) (value : Cursor → Scan) : Scan :=
  match c.peek? with
  | some '[' => c.enclosed depth ']' fun c => c.items value ignored c.rest.length true
  | some '{' => c.enclosed depth '}' fun c => c.eachMember value ignored
  | some x =>
    if ignored ∧ (x = '-' ∨ x.isDigit) then do return (← c.number false).2
    else do return (← c.found).2
  | none => c.stop .noValue

def onlyMember (c : Cursor) (value : Schema → Cursor → Scan) (cases : List (String × Schema)) :
    Scan := do
  let c := c.skipBlanks
  if c.peek? = none then c.stop (.endOfText .value)
  if c.peek? ≠ some '"' then c.refuse "variant identifier"
  let (name, c) ← c.quoted
  match Table.find name cases with
  | none => c.stop (.unknownName name (cases.map (·.1)))
  | some schema => value schema (← c.colon)

/-- Reads an object with one member, or refuses the bare name of one. -/
def variant (c : Cursor) (depth : Nat) (value : Schema → Cursor → Scan)
    (cases : List (String × Schema)) : Scan :=
  match c.peek? with
  | some '{' =>
    if depth = 0 then c.stopNext .tooDeep
    else do
      let c := (← c.tail.onlyMember value cases).skipBlanks
      match c.peek? with
      | some '}' => return c.tail
      | some _ => c.stop .noValue
      | none => c.stop (.endOfText .object)
  | some '"' => do
    let (name, c) ← c.quoted
    if (Table.find name cases).isNone then c.stop (.unknownName name (cases.map (·.1)))
    c.halt (.wrongType .bareName "newtype variant")
  | _ => c.stopNext .noValue

/-- Reads a value of a schema. `fuel` bounds the recursion, `depth` how many levels may nest. -/
def value (root : Schema) : Nat → Nat → Schema → Cursor → Scan
  | 0, _, _, c => .ok c
  | fuel + 1, depth, schema, c =>
    let c := c.skipBlanks
    let inner (schema : Schema) (c : Cursor) : Scan := value root fuel (depth - 1) schema c
    match schema, c.peek? with
    | .whole, _ => value root fuel depth root c
    | .optional schema, next =>
      if next = some 'n' then c.tail.word ['u', 'l', 'l'] else value root fuel depth schema c
    | _, none => c.stop (.endOfText .value)
    | .bool, some x =>
      if x = 't' then c.tail.word ['r', 'u', 'e']
      else if x = 'f' then c.tail.word ['a', 'l', 's', 'e']
      else c.refuse "a boolean"
    | .axis, _ => c.integer "i32" (-2147483648) 2147483648
    | .index, _ => c.integer "usize" 0 indexBound
    | .text, some x => if x = '"' then do return (← c.quoted).2 else c.refuse "a string"
    | .list schema, some x =>
      if x = '[' then
        c.enclosed depth ']' fun c => c.items (inner schema) false c.rest.length true
      else c.refuse "a sequence"
    | .table schema, some x =>
      if x = '{' then c.enclosed depth '}' fun c => c.eachMember (inner schema) false
      else c.refuse "a map"
    | .record name fields, some x =>
      let phrase := "struct " ++ name
      if x = '[' then
        c.enclosed depth ']' fun c =>
          c.fieldsInOrder inner (arrayPhrase phrase fields.length) 0 true fields
      else if x = '{' then c.enclosed depth '}' fun c => c.fieldsByName inner fields
      else c.refuse phrase
    | .mixed name fields others, some x =>
      if x = '{' then c.enclosed depth '}' fun c => c.mixedFields inner fields others
      else c.refuse ("struct " ++ name)
    | .variant cases, _ => c.variant depth inner cases
    | .anything, _ => c.any depth false (inner .anything)
    | .ignored, _ => c.any 1 true (inner .ignored)

end Cursor

namespace Schema

/-- The first fault of a text that should hold one value of a schema, if it has one. -/
def problem? (schema : Schema) (s : String) : Option Problem :=
  let c := Cursor.ofText s
  match c.value schema (2 * c.rest.length + 3) nestingLimit schema with
  | .error e => some e.problem
  | .ok c =>
    let c := c.skipBlanks
    if c.rest.isEmpty then none else some ⟨.trailingCharacters, c.place.ahead 1 c.rest⟩

/-- What is wrong with a text that could not be read as a value of a schema. -/
def problem (schema : Schema) (s : String) : Problem := (schema.problem? s).getD ⟨.noValue, none⟩

end Schema

end AutomatonSketch.Json
