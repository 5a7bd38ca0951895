import AutomatonSketch.App.State
import AutomatonSketch.Format.Workspace
import AutomatonSketch.Json.Binary32

/-! What the application keeps between two runs. -/

namespace AutomatonSketch

open Json

namespace View

/-- A number that is not finite is stored as `null`, which cannot be read. -/
def toJson (v : View) : Json :=
  .object [("zoom_factor", ofOption .number (Binary32.toNumber? v.zoom)),
    ("show_grid", .bool v.showGrid), ("show_parse_tree", .bool v.showParseTree)]

def zoomOfJson? : Json → Option Float32
  | .number n => n.toFloat32?
  | _ => none

/-- Reads a view; it has yet to be centred. -/
def ofJson? (j : Json) : Option View := do
  let r ← Record.of? ["zoom_factor", "show_grid", "show_parse_tree"] j
  let zoom ← r.withDefault "zoom_factor" initial.zoom zoomOfJson?
  let showGrid ← r.withDefault "show_grid" initial.showGrid bool?
  let showParseTree ← r.withDefault "show_parse_tree" initial.showParseTree bool?
  return { initial with zoom, showGrid, showParseTree }

end View

namespace App

def toJson (app : App) : Json :=
  .object [("editor", app.editor.snapshot.toJson), ("canvas", app.view.toJson),
    ("session", app.session.toJson), ("dark_mode", .bool app.darkMode)]

def editorOfJson? (j : Json) : Option Editor := do
  let data ← Snapshot.ofJson? 1 j
  (Editor.initial.restore data).toOption

/-- Reads a stored state. What is not stored is as at the first start. -/
def ofJson? (j : Json) : Option App := do
  let r ← Record.of? ["editor", "canvas", "session", "dark_mode"] j
  let editor ← r.withDefault "editor" initial.editor editorOfJson?
  let view ← r.withDefault "canvas" initial.view View.ofJson?
  let session ← r.withDefault "session" initial.session Session.ofJson?
  let darkMode ← r.withDefault "dark_mode" initial.darkMode bool?
  return { initial with editor, view, session, darkMode }

def toText (app : App) : String := app.toJson.toText

def ofText? (s : String) : Option App := (Json.ofText? s).bind ofJson?

/-- The application as it starts again. The environment's session goes before the stored one, and a
stored state that cannot be read is ignored. -/
def start (stored : Option String) (environment : Session) : App :=
  let app := (stored.bind ofText?).getD initial
  { app with session := environment.orElse app.session }.syncInputs

end App

end AutomatonSketch
