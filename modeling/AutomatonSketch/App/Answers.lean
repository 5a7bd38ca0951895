import AutomatonSketch.App.State

/-! Applying answers. A failure changes nothing but the message. -/

namespace AutomatonSketch.App

/-- Takes a restored workspace over: its settings go into the input fields, and no string has been
checked in it. -/
def takeOver (app : App) (editor : Editor) : App := { app with editor }.syncInputs.clearResult

def applyChecked (app : App) (checked : CheckedString) : App :=
  let app := if checked.dialogue = "" then app else app.say checked.dialogue
  { app with
    lastCheck := some checked
    highlighted :=
      if app.editor.options.showTraversal then checked.traversed.map (·.key) else [] }

def applyLoaded (app : App) (data : Snapshot) : App :=
  match app.editor.restore data with
  | .ok editor => app.takeOver editor
  | .error e => app.say (StoreError.malformed Store.loadCommand e.message).message

/-- Applies the result of a request, or shows why it failed. -/
def applyResult (app : App) (apply : App → α → App) : Except StoreError α → App
  | .ok a => apply app a
  | .error e => app.say e.message

def applyAnswer (app : App) : Answer → App
  | .checked result => app.applyResult applyChecked result
  | .saved result => app.applyResult (fun app _ => app) result
  | .loaded result => app.applyResult applyLoaded result
  | .alphabetUpdated result =>
    app.applyResult
      (fun app alphabet =>
        { app.modifyOptions fun o => { o with alphabet } with
          inputs := { app.inputs with alphabet := Alphabet.fieldText alphabet } })
      result
  | .strictUpdated result =>
    app.applyResult (fun app strict => app.modifyOptions fun o => { o with strict }) result
  | .traversalUpdated result =>
    app.applyResult (fun app showTraversal => app.modifyOptions fun o => { o with showTraversal })
      result
  | .edgeLabelUpdated result =>
    app.applyResult
      (fun app edgeLabel =>
        { app.modifyOptions fun o => { o with edgeLabel } with
          inputs := { app.inputs with edgeLabel } })
      result

/-- Takes one answer from the request it belongs to, and applies it. -/
def receive (app : App) (answer : Answer) : App :=
  { app with inFlight := app.inFlight - 1 }.applyAnswer answer

def drain (app : App) : App := app.answers.foldl receive { app with answers := [] }

end AutomatonSketch.App
