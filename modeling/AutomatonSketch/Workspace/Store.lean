import AutomatonSketch.Workspace.Session
import AutomatonSketch.Workspace.Snapshot

/-! Saved workspaces, kept by workspace name and email. -/

namespace AutomatonSketch

inductive StoreError where
  | unavailable (reason : String)
  | rejected (command reason : String)
  | malformed (command reason : String)
deriving DecidableEq

namespace StoreError

def message : StoreError → String
  | unavailable reason => "Backend unavailable: " ++ reason
  | rejected command reason => "Backend rejected " ++ command ++ ": " ++ reason
  | malformed command reason => "Malformed response from " ++ command ++ ": " ++ reason

end StoreError

abbrev Store := Table Credentials Snapshot

namespace Store

def loadCommand : String := "load_workspace"

/-- What a request is made under. -/
def credentials (command : String) (session : Session) : Except StoreError Credentials :=
  match session.credentials? with
  | some c => .ok c
  | none => .error (.rejected command "no workspace is open")

def noWorkspace (command : String) (c : Credentials) : StoreError :=
  .rejected command ("no saved workspace named '" ++ c.workspace ++ "'")

/-- Saves a workspace over what was saved there before. -/
def save (store : Store) (session : Session) (data : Snapshot) : Except StoreError Unit × Store :=
  match credentials "save_workspace" session with
  | .ok c => (.ok (), store.insert c data)
  | .error e => (.error e, store)

def load (store : Store) (session : Session) : Except StoreError Snapshot :=
  match credentials loadCommand session with
  | .error e => .error e
  | .ok c =>
    match store.get? c with
    | some data => .ok data
    | none => .error (noWorkspace loadCommand c)

/-- Changes the settings of a saved workspace and answers `value`. -/
def update (store : Store) (command : String) (session : Session) (value : α)
    (change : WorkspaceOptions → WorkspaceOptions) : Except StoreError α × Store :=
  match credentials command session with
  | .error e => (.error e, store)
  | .ok c =>
    match store.get? c with
    | none => (.error (noWorkspace command c), store)
    | some data => (.ok value, store.insert c { data with options := change data.options })

def updateAlphabet (store : Store) (session : Session) (entries : List String) :
    Except StoreError (List String) × Store :=
  let alphabet := Alphabet.sanitize entries
  store.update "update_workspace_alphabet" session alphabet fun o => { o with alphabet }

def updateStrict (store : Store) (session : Session) (strict : Bool) :
    Except StoreError Bool × Store :=
  store.update "update_strict_checking" session strict fun o => { o with strict }

def updateTraversal (store : Store) (session : Session) (showTraversal : Bool) :
    Except StoreError Bool × Store :=
  store.update "update_showing_string_traversal" session showTraversal fun o =>
    { o with showTraversal }

def updateEdgeLabel (store : Store) (session : Session) (edgeLabel : String) :
    Except StoreError String × Store :=
  let command := "update_default_connection_character"
  if edgeLabel.length = 1 then
    store.update command session edgeLabel fun o => { o with edgeLabel }
  else (.error (.rejected command ("'" ++ edgeLabel ++ "' is not a single character")), store)

end Store

end AutomatonSketch
