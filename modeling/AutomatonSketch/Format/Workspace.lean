import AutomatonSketch.Format.Diagram
import AutomatonSketch.Json.Writer
import AutomatonSketch.Workspace.Session
import AutomatonSketch.Workspace.Snapshot

/-! The JSON forms of settings, sessions and snapshots. -/

namespace AutomatonSketch

open Json

namespace AutomatonKind

def ofName? : String → Option AutomatonKind
  | "DFA" => some dfa
  | "NFA" => some nfa
  | _ => none

def toJson (k : AutomatonKind) : Json := .text k.name

def ofJson? (j : Json) : Option AutomatonKind := (choice? j).bind ofName?

/-- What is wrong with the form of a kind, if anything is. -/
def fault? : Json → Option Fault
  | .text s => if (ofName? s).isSome then none else some (.unknownName s ["DFA", "NFA"])
  | .object [(s, v)] =>
    if (ofName? s).isNone then some (.unknownName s ["DFA", "NFA"])
    else
      match v with
      | .null => none
      | v => some (.wrongType (.ofJson v) "unit")
  | .object _ => some (.wrongValue .object "map with a single key")
  | v => some (.wrongType (.ofJson v) "string or map")

end AutomatonKind

namespace WorkspaceOptions

def fieldNames : List String :=
  ["type_of_automata", "alphabet", "should_strict_check", "should_show_string_traversal",
    "default_connection_character"]

def fields (o : WorkspaceOptions) : List (String × Json) :=
  [("type_of_automata", o.kind.toJson), ("alphabet", .array (o.alphabet.map .text)),
    ("should_strict_check", .bool o.strict),
    ("should_show_string_traversal", .bool o.showTraversal),
    ("default_connection_character", .text o.edgeLabel)]

def toJson (o : WorkspaceOptions) : Json := .object o.fields

/-- Settings with those that are missing as in a new workspace. -/
def ofRecord? (r : Record) : Option WorkspaceOptions := do
  let kind ← r.withDefault "type_of_automata" initial.kind AutomatonKind.ofJson?
  let alphabet ← r.withDefault "alphabet" initial.alphabet (list? text?)
  let strict ← r.withDefault "should_strict_check" initial.strict bool?
  let showTraversal ← r.withDefault "should_show_string_traversal" initial.showTraversal bool?
  let edgeLabel ← r.withDefault "default_connection_character" initial.edgeLabel text?
  return ⟨kind, alphabet, strict, showTraversal, edgeLabel⟩

def ofJson? (j : Json) : Option WorkspaceOptions := (Record.of? fieldNames j).bind ofRecord?

def boolFault? : Json → Option Fault
  | .bool _ => none
  | v => some (.wrongType (.ofJson v) "a boolean")

def textFault? : Json → Option Fault
  | .text _ => none
  | v => some (.wrongType (.ofJson v) "a string")

/-- What is wrong with a setting, if anything is. -/
def settingFault? (name : String) (v : Json) : Option Fault :=
  if name = "type_of_automata" then AutomatonKind.fault? v
  else if name = "alphabet" then
    match v with
    | .array items => items.findSome? textFault?
    | v => some (.wrongType (.ofJson v) "a sequence")
  else if name = "default_connection_character" then textFault? v
  else boolFault? v

/-- What is wrong with the settings among the members of an object, if anything is. -/
def fault? (seen : List String) : List (String × Json) → Option Fault
  | [] => none
  | (name, v) :: rest =>
    if name ∈ seen then some (.repeatedField name)
    else if name ∈ fieldNames then (settingFault? name v).or (fault? (name :: seen) rest)
    else fault? seen rest

end WorkspaceOptions

namespace Session

def toJson (s : Session) : Json :=
  .object [("workspace_name", ofOption .text s.workspace), ("email", ofOption .text s.email)]

def ofJson? (j : Json) : Option Session := do
  let r ← Record.of? ["workspace_name", "email"] j
  return ⟨← r.optional "workspace_name" text?, ← r.optional "email" text?⟩

end Session

namespace Snapshot

def fieldNames : List String :=
  ["start_state_index", "start_state_position", "state_positions", "list_of_states",
    "list_of_regular_automata_connections"]

/-- A snapshot. The settings stand among its own fields. -/
def toJson (s : Snapshot) : Json :=
  .object <|
    [("start_state_index", ofOption (fun n : Nat => .number (.integer n)) s.startIndex),
      ("start_state_position", ofOption StateKey.toJson s.startKey),
      ("state_positions", .object (s.states.entries.map fun e => (e.1.text, e.2.toJson))),
      ("list_of_states", .array (s.nodes.map Node.toJson)),
      ("list_of_regular_automata_connections", .array (s.edges.map Edge.toJson))] ++
      s.options.fields

/-- Reads a snapshot that stands `depth` levels deep. Members other than its own fields count
towards the nesting limit. -/
def ofJson? (depth : Nat) (j : Json) : Option Snapshot := do
  let .object members := j | none
  guard ((members.filter fun m => !fieldNames.contains m.1).all fun m =>
    isBufferable (depth + 1) m.2)
  let r ← Record.ofMembers? fieldNames members
  let startIndex ← r.withDefault "start_state_index" none (option? index?)
  let startKey ← r.withDefault "start_state_position" none (option? StateKey.ofJson?)
  let states ← r.withDefault "state_positions" .empty (table? StateKey.mk Node.ofJson?)
  let nodes ← r.withDefault "list_of_states" [] (list? Node.ofJson?)
  let edges ← r.withDefault "list_of_regular_automata_connections" [] (list? Edge.ofJson?)
  let options ← (Record.ofMembers? WorkspaceOptions.fieldNames members).bind
    WorkspaceOptions.ofRecord?
  return ⟨startIndex, startKey, states, nodes, edges, options⟩

def schema : Schema :=
  .mixed "WorkspaceData"
    [("start_state_index", .optional .index), ("start_state_position", .optional .text),
      ("state_positions", .table Node.schema), ("list_of_states", .list Node.schema),
      ("list_of_regular_automata_connections", .list Edge.schema)]
    (WorkspaceOptions.fault? [])

def toText (s : Snapshot) : String := s.toJson.toText

def ofText (s : String) : Except WorkspaceError Snapshot :=
  match (Json.ofText? s).bind (ofJson? 0) with
  | some data => .ok data
  | none => .error (.unreadable (schema.problem s))

end Snapshot

end AutomatonSketch
