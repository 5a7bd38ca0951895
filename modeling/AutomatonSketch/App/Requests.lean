import AutomatonSketch.App.State

/-! Requests. Each takes what it needs from the state it is made in, and its answer waits in the
queue. -/

namespace AutomatonSketch.App

def await (app : App) (answer : Answer) : App :=
  { app with answers := app.answers ++ [answer], inFlight := app.inFlight + 1 }

def ask (app : App) (wrap : Except StoreError α → Answer)
    (request : Store → Session → Except StoreError α × Store) : App :=
  let (result, store) := request app.store app.session
  { app with store }.await (wrap result)

def askIfOpen (app : App) (wrap : Except StoreError α → Answer)
    (request : Store → Session → Except StoreError α × Store) : App :=
  if app.session.credentials?.isSome then app.ask wrap request else app

def requestStringCheck (app : App) : App :=
  app.await (.checked (.ok (app.editor.stringCheck (some app.inputs.string)).run))

def requestSave (app : App) : App :=
  app.ask .saved fun store session => store.save session app.editor.snapshot

def requestLoad (app : App) : App :=
  app.ask .loaded fun store session => (store.load session, store)

/-- Takes the alphabet from its field and saves it if a workspace is open. -/
def requestAlphabetUpdate (app : App) : App :=
  let alphabet := Alphabet.sanitize (commaParts app.inputs.alphabet)
  let app := app.modifyOptions fun o => { o with alphabet }
  let app := { app with inputs := { app.inputs with alphabet := Alphabet.fieldText alphabet } }
  app.askIfOpen .alphabetUpdated fun store session => store.updateAlphabet session alphabet

def requestStrictUpdate (app : App) : App :=
  app.askIfOpen .strictUpdated fun store session =>
    store.updateStrict session app.editor.options.strict

/-- Drops the highlights if they are switched off, and saves the switch if a workspace is open. -/
def requestTraversalUpdate (app : App) : App :=
  let app := if app.editor.options.showTraversal then app else { app with highlighted := [] }
  app.askIfOpen .traversalUpdated fun store session =>
    store.updateTraversal session app.editor.options.showTraversal

def requestEdgeLabelUpdate (app : App) : App :=
  app.askIfOpen .edgeLabelUpdated fun store session =>
    store.updateEdgeLabel session app.editor.options.edgeLabel

/-- Takes the label of new transitions from its field. One character is taken; an empty field is
left alone until the input is `finished`; anything else goes back to the current label. -/
def commitEdgeLabel (app : App) (finished : Bool) : App :=
  let typed := app.inputs.edgeLabel
  let current := app.editor.options.edgeLabel
  if typed.length = 1 then
    if typed = current then app
    else (app.modifyOptions fun o => { o with edgeLabel := typed }).requestEdgeLabelUpdate
  else if typed.length = 0 ∧ ¬ finished then app
  else { app with inputs := { app.inputs with edgeLabel := current } }

end AutomatonSketch.App
