import AutomatonSketch.Json.Fault

/-! What the JSON form of a typed value has to look like. -/

namespace AutomatonSketch.Json

/-- When a field may be missing: never, only from an object, or always. -/
inductive Presence where
  | required
  | nullable
  | defaulted
deriving DecidableEq

inductive Schema where
  | bool
  | axis
  | index
  | text
  | optional (schema : Schema)
  | list (items : Schema)
  | table (values : Schema)
  /-- A record of this name, with its fields in order. -/
  | record (name : String) (fields : List (String × Presence × Schema))
  /-- An object with fields that may be missing, and other members, which `others` judges. -/
  | mixed (name : String) (fields : List (String × Schema))
    (others : List (String × Json) → Option Fault)
  /-- An object with one member, whose name tells the schema of its value. -/
  | variant (cases : List (String × Schema))
  /-- The schema of the whole text. -/
  | whole
  /-- Any value that has to be kept. -/
  | anything
  /-- Any value that does not count. -/
  | ignored

end AutomatonSketch.Json
