import AutomatonSketch.App.Answers
import AutomatonSketch.Format.ParseTree
import AutomatonSketch.Format.Workspace

/-! Workspaces and parse trees in files. -/

namespace AutomatonSketch.App

def applyWorkspaceText (app : App) (path content : String) : App :=
  match (Snapshot.ofText content).bind app.editor.restore with
  | .ok editor =>
    { app.takeOver editor with path := some path, view := { app.view with showParseTree := false } }
  | .error e => app.say ("Could not open " ++ path ++ ": " ++ e.message)

def applyParseTreeText (app : App) (path content : String) : App :=
  match ParseTree.ofText content with
  | .ok tree => { app with parseTree := some tree, view := { app.view with showParseTree := true } }
  | .error problem =>
    app.say ("Could not read a parse tree from " ++ path ++ ": " ++ problem.message)

def applyFileResult (app : App) : FileResult → App
  | .saved path => { app with path := some path }
  | .workspaceRead path content => app.applyWorkspaceText path content
  | .parseTreeRead path content => app.applyParseTreeText path content
  | .failed message => app.say message

def drainFiles (app : App) : App :=
  app.fileResults.foldl applyFileResult { app with fileResults := [] }

def workspaceText (app : App) : String := app.editor.snapshot.toText

/-- What saving to a file came to: it is the current one now, or the reason why it could not be
written is shown. -/
def finishSaving (app : App) (path : String) (written : Except String Unit) : App :=
  app.applyFileResult <|
    match written with
    | .ok () => .saved path
    | .error reason => .failed ("Failed to write " ++ path ++ ": " ++ reason)

end AutomatonSketch.App
