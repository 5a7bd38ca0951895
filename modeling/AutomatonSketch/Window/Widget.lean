import AutomatonSketch.Canvas.Scene
import AutomatonSketch.Json.Binary32

/-! The window's widgets in the order of painting: toolbar, message bar, side panel, canvas. -/

namespace AutomatonSketch

inductive Field where
  | string
  | alphabet
  | edgeLabel
  | workspace
  | email
deriving DecidableEq

/-- What can be pressed, text fields apart. -/
inductive Control where
  | openWorkspace
  | saveFile
  | saveFileAs
  | mode (m : EditorMode)
  | undo
  | redo
  | clear
  | openParseTree
  | showTree
  | grid
  | darkMode
  | hush
  | kind (k : AutomatonKind)
  | test
  | applyAlphabet
  | strict
  | traversal
  | saveWorkspace
  | loadWorkspace
deriving DecidableEq

inductive Widget where
  | label (text : String)
  /-- A label to the left of a text field. -/
  | caption (text : String) (f : Field)
  | control (text : String) (c : Control)
  | field (text : String) (f : Field)
deriving DecidableEq

namespace Widget

def text : Widget → String
  | label text => text
  | caption text _ => text
  | control text _ => text
  | field text _ => text

end Widget

namespace Field

def shown (f : Field) (app : App) : String :=
  match f with
  | string => app.inputs.string
  | alphabet => app.inputs.alphabet
  | edgeLabel => app.inputs.edgeLabel
  | workspace => app.session.workspace.getD ""
  | email => app.session.email.getD ""

def widget (f : Field) (app : App) : Widget := .field (f.shown app) f

end Field

namespace App

def statusText (app : App) : String :=
  let d := app.editor.diagram
  app.editor.mode.label ++ " | " ++ Numeral.text d.nodeCount ++ " states, " ++
    Numeral.text d.edges.length ++ " edges | " ++ Binary32.wholeText (app.view.zoom * 100) ++ "%"

def toolbar (app : App) : List Widget :=
  [.control "Open" .openWorkspace, .control "Save" .saveFile, .control "Save As" .saveFileAs] ++
    EditorMode.selectable.map (fun m => .control m.label (.mode m)) ++
    [.control "⟲ Undo" .undo, .control "⟳ Redo" .redo, .control "🗑 Clear" .clear,
      .control "Open Parse Tree" .openParseTree, .control "Show Tree" .showTree,
      .control "Grid" .grid, .control "Dark Mode" .darkMode, .label app.statusText]

def messageBar (app : App) : List Widget :=
  match app.editor.dialogue with
  | some message => [.label message, .control "✖" .hush]
  | none => [.label app.editor.mode.hint]

/-- The verdict of a check, and the states that it passed. -/
def resultWidgets (checked : CheckedString) : List Widget :=
  .label
      (match checked.accepted with
      | some true => "Accepted"
      | some false => "Rejected"
      | none => "Not tested") ::
    if checked.traversed.isEmpty then []
    else
      let passed := checked.traversed.map fun n => "(" ++ n.key.text ++ ")"
      [.label (String.intercalate " → " passed)]

def sidePanel (app : App) : List Widget :=
  [.label "Automaton", .control "DFA" (.kind .dfa), .control "NFA" (.kind .nfa),
    .label "Test a String", Field.string.widget app, .control "Test" .test] ++
    (app.lastCheck.map resultWidgets).getD [] ++
    [.label "Options", .label "Alphabet", Field.alphabet.widget app,
      .control "Apply" .applyAlphabet, .control "Strict DFA checking" .strict,
      .control "Highlight traversal" .traversal, .caption "Edge character" .edgeLabel,
      Field.edgeLabel.widget app, .label "Workspace", .caption "Name" .workspace,
      Field.workspace.widget app, .caption "Email" .email, Field.email.widget app,
      .control "Save to Workspace" .saveWorkspace,
      .control "Load from Workspace" .loadWorkspace] ++
    (app.path.map fun path => Widget.label ("File: " ++ path)).toList

def canvasLabels (app : App) : List Widget :=
  app.contentShapes.filterMap fun
    | .text _ content _ _ => some (.label content)
    | _ => none

def widgets (app : App) : List Widget :=
  app.toolbar ++ app.messageBar ++ app.sidePanel ++ app.canvasLabels

end App

end AutomatonSketch
