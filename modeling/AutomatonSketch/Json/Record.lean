import AutomatonSketch.AxisValue
import AutomatonSketch.Json.Number
import AutomatonSketch.Table

/-! Typed reading of JSON values. A record is an object, whose unknown members do not count, or an
array of the fields in their fixed order. -/

namespace AutomatonSketch.Json

/-- How deep the arrays and objects of a readable value nest. -/
def nestingLimit : Nat := 127

mutual

def isFinite : Json → Bool
  | number n => n.isFinite
  | array items => areFinite items
  | object members => membersAreFinite members
  | _ => true

def areFinite : List Json → Bool
  | [] => true
  | v :: rest => v.isFinite && areFinite rest

def membersAreFinite : List (String × Json) → Bool
  | [] => true
  | m :: rest => memberIsFinite m && membersAreFinite rest

def memberIsFinite : String × Json → Bool
  | (_, v) => v.isFinite

end

/-- Whether a value that stands `depth` levels deep can be kept until its kind is known: it is not
nested too deep and its numbers are finite. A value that is skipped need not be. -/
def isBufferable (depth : Nat) (j : Json) : Bool := depth + j.nesting ≤ nestingLimit && j.isFinite

def text? : Json → Option String
  | .text s => some s
  | _ => none

def bool? : Json → Option Bool
  | .bool b => some b
  | _ => none

def axis? : Json → Option AxisValue
  | .number (.integer z) => AxisValue.ofInt? z
  | _ => none

/-- The least natural number that is no index: 2⁶⁴. -/
def indexBound : Int := 18446744073709551616

/-- A natural number below the bound of indices. -/
def index? : Json → Option Nat
  | .number (.integer z) => if 0 ≤ z ∧ z < indexBound then some z.toNat else none
  | _ => none

/-- The name of one of several choices: alone, or with nothing attached. -/
def choice? : Json → Option String
  | .text s => some s
  | .object [(s, .null)] => some s
  | _ => none

def ofOption (write : α → Json) : Option α → Json
  | none => .null
  | some a => write a

/-- A value that may be `null`. -/
def option? (read : Json → Option α) : Json → Option (Option α)
  | .null => some none
  | v => (read v).map some

def list? (read : Json → Option α) : Json → Option (List α)
  | .array items => items.mapM read
  | _ => none

/-- An object as a table; of members with one name the last counts. -/
def table? [Ord κ] [Std.TransOrd κ] [Std.LawfulEqOrd κ] (key : String → κ)
    (read : Json → Option α) : Json → Option (Table κ α)
  | .object members =>
    (members.mapM fun (m : String × Json) => (read m.2).map fun a => (key m.1, a)).map Table.ofList
  | _ => none

/-- The fields of a record that are present, each at most once. -/
structure Record where
  fields : List (String × Json)
  /-- Whether the fields came with their names. -/
  named : Bool

namespace Record

/-- The members of an object whose names are known, if none is repeated. -/
def ofMembers? (names : List String) (members : List (String × Json)) : Option Record :=
  let known := members.filter fun m => names.contains m.1
  if (known.map (·.1)).Nodup then some ⟨known, true⟩ else none

/-- The record that a value holds, its fields being `names` in this order. -/
def of? (names : List String) : Json → Option Record
  | .object members => ofMembers? names members
  | .array items =>
    if items.length ≤ names.length then some ⟨names.zip items, false⟩ else none
  | _ => none

def find (r : Record) (name : String) : Option Json := Table.find name r.fields

def required (r : Record) (name : String) (read : Json → Option α) : Option α :=
  (r.find name).bind read

/-- A field with a default. -/
def withDefault (r : Record) (name : String) (default : α) (read : Json → Option α) : Option α :=
  match r.find name with
  | some v => read v
  | none => some default

/-- A field that may be `null`, or missing from an object. -/
def optional (r : Record) (name : String) (read : Json → Option α) : Option (Option α) :=
  match r.find name with
  | some v => option? read v
  | none => if r.named then some none else none

end Record

end AutomatonSketch.Json
