import AutomatonSketch.Canvas.View
import AutomatonSketch.Editor.Basic
import AutomatonSketch.Geometry.Grid
import AutomatonSketch.ParseTree.Basic
import AutomatonSketch.Workspace.Store

/-! The state of the application around the editor. -/

namespace AutomatonSketch

inductive Answer where
  | checked (result : Except StoreError CheckedString)
  | saved (result : Except StoreError Unit)
  | loaded (result : Except StoreError Snapshot)
  | alphabetUpdated (result : Except StoreError (List String))
  | strictUpdated (result : Except StoreError Bool)
  | traversalUpdated (result : Except StoreError Bool)
  | edgeLabelUpdated (result : Except StoreError String)

inductive FileResult where
  | saved (path : String)
  | workspaceRead (path content : String)
  | parseTreeRead (path content : String)
  | failed (message : String)
deriving DecidableEq

structure Inputs where
  string : String
  /-- The alphabet, its entries between commas. -/
  alphabet : String
  edgeLabel : String
deriving DecidableEq

structure App where
  editor : Editor
  view : View
  /-- Where the pointer was when the canvas was last panned, while it is. -/
  panFrom : Option Point
  /-- The pointer's place in the plane, while it is over the canvas. -/
  hover : Option Point
  session : Session
  inputs : Inputs
  /-- The answer to the last string check, until something changes. -/
  lastCheck : Option CheckedString
  /-- The keys of the states to highlight. -/
  highlighted : List StateKey
  store : Store
  /-- Answers that have not been applied yet, oldest first. -/
  answers : List Answer
  inFlight : Nat
  /-- The file that the workspace was read from or written to. -/
  path : Option String
  /-- Outcomes of file operations that have not been applied yet, oldest first. -/
  fileResults : List FileResult
  parseTree : Option ParseTree
  darkMode : Bool

namespace App

/-- Shows the alphabet and the label of new transitions in their fields. -/
def syncInputs (app : App) : App :=
  { app with
    inputs :=
      { app.inputs with
        alphabet := Alphabet.fieldText app.editor.options.alphabet
        edgeLabel := app.editor.options.edgeLabel } }

def initial : App :=
  syncInputs
    { editor := .initial, view := .initial, panFrom := none, hover := none, session := .anonymous
      inputs := ⟨"", "", ""⟩, lastCheck := none, highlighted := [], store := .empty, answers := []
      inFlight := 0, path := none, fileResults := [], parseTree := none, darkMode := true }

instance : Inhabited App := ⟨initial⟩

def modifyEditor (app : App) (f : Editor → Editor) : App := { app with editor := f app.editor }

def modifyOptions (app : App) (f : WorkspaceOptions → WorkspaceOptions) : App :=
  app.modifyEditor fun e => { e with options := f e.options }

def say (app : App) (message : String) : App := app.modifyEditor (·.say message)

/-- Forgets the last string check and what it highlights. -/
def clearResult (app : App) : App := { app with lastCheck := none, highlighted := [] }

def isBusy (app : App) : Bool := app.inFlight ≠ 0

/-- The parse tree, if it is shown instead of the diagram. -/
def shownTree? (app : App) : Option ParseTree :=
  if app.view.showParseTree then app.parseTree else none

def setMode (app : App) (mode : EditorMode) : App := app.modifyEditor (·.setMode mode)

/-- Handles a click at a point of the plane: in idle mode it picks up the nearest curve, in any
other it goes to the nearest point of the grid. -/
def clickWorld (app : App) (p : Point) : App :=
  if app.editor.mode = .idle then app.modifyEditor fun e => (e.selectCurveAt p).2
  else
    match app.editor.click (p.snap Coordinate.gridStep) with
    | (.ok (), editor) => { app with editor }.clearResult
    | (.error _, editor) => { app with editor }

def undo (app : App) : Option Element × App :=
  let (element, editor) := app.editor.undo
  (element, { app with editor }.clearResult)

def redo (app : App) : Option Element × App :=
  let (element, editor) := app.editor.redo
  (element, { app with editor }.clearResult)

def undoLine : Option Element → String
  | some element => "Undid " ++ element.describe
  | none => "Nothing to undo"

def redoLine : Option Element → String
  | some element => "Redid " ++ element.describe
  | none => "Nothing to redo"

def discardAll (app : App) : App := (app.modifyEditor Editor.discardAll).clearResult

end App

end AutomatonSketch
