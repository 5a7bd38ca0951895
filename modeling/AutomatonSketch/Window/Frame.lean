import AutomatonSketch.App.Files
import AutomatonSketch.App.Requests
import AutomatonSketch.Window.Widget

/-! The window at work: frames, pressed widgets, keys and typed text. -/

namespace AutomatonSketch

/-- The application in its window. At most one text field has the keyboard focus. -/
structure Window where
  app : App
  focus : Option Field

inductive Key where
  | z
  | y
  | enter
  | escape
  | backspace
  | other
deriving DecidableEq

namespace App

/-- What a pressed control does. One that is disabled does nothing. -/
def press (app : App) : Control → App
  | .mode m => app.setMode m
  | .undo => if app.editor.history.canUndo then app.undo.2 else app
  | .redo => if app.editor.history.canRedo then app.redo.2 else app
  | .clear => app.discardAll
  | .showTree =>
    if app.parseTree.isSome then
      app.modifyView fun v => { v with showParseTree := !v.showParseTree }
    else app
  | .grid => app.modifyView fun v => { v with showGrid := !v.showGrid }
  | .darkMode => { app with darkMode := !app.darkMode }
  | .hush => app.modifyEditor (·.hush)
  | .kind k =>
    if app.editor.options.kind = k then app
    else (app.modifyOptions fun o => { o with kind := k }).clearResult
  | .test => app.requestStringCheck
  | .applyAlphabet => app.requestAlphabetUpdate
  | .strict => (app.modifyOptions fun o => { o with strict := !o.strict }).requestStrictUpdate
  | .traversal =>
    (app.modifyOptions fun o => { o with showTraversal := !o.showTraversal }).requestTraversalUpdate
  | .saveWorkspace => if app.session.credentials?.isSome then app.requestSave else app
  | .loadWorkspace => if app.session.credentials?.isSome then app.requestLoad else app
  | .openWorkspace | .saveFile | .saveFileAs | .openParseTree => app

/-- Blank text in a field of the session is none. -/
def settingOf (text : String) : Option String := if trim text = "" then none else some text

def edit (app : App) (text : String) : Field → App
  | .string => { app with inputs := { app.inputs with string := text } }
  | .alphabet => { app with inputs := { app.inputs with alphabet := text } }
  | .edgeLabel =>
    { app with inputs := { app.inputs with edgeLabel := text } }.commitEdgeLabel false
  | .workspace => { app with session := { app.session with workspace := settingOf text } }
  | .email => { app with session := { app.session with email := settingOf text } }

def leaveField (app : App) : Field → App
  | .edgeLabel => app.commitEdgeLabel true
  | _ => app

end App

namespace Window

def modifyApp (w : Window) (f : App → App) : Window := { w with app := f w.app }

/-- How a frame begins: the view counts as centred, and waiting outcomes and answers are applied. -/
def beginFrame (w : Window) : Window :=
  w.modifyApp fun app =>
    (app.modifyView fun v => { v with centred := true }).drainFiles.drain

/-- How a frame ends: the canvas is drawn, the pointer being elsewhere. -/
def endFrame (w : Window) : Window :=
  w.modifyApp fun app =>
    let app := { app with panFrom := none }
    if app.shownTree?.isSome then app else { app with hover := none }

/-- A frame in which the widgets react as `act` says. -/
def frameWith (w : Window) (act : Window → Window) : Window := (act w.beginFrame).endFrame

def frame (w : Window) : Window := w.frameWith id

/-- The texts that a frame paints; empty ones do not show. -/
def texts (w : Window) : List String := (w.app.widgets.map Widget.text).filter (· ≠ "")

/-- Takes the focus away from the field that has it, unless that is where it goes. -/
def moveFocus (w : Window) (target : Option Field) : Window :=
  if w.focus = target then w
  else { w with focus := target, app := (w.focus.map w.app.leaveField).getD w.app }

def click (w : Window) : Widget → Window
  | .control _ c => w.modifyApp (·.press c)
  | _ => w

/-- What is clicked at a widget, or `beside` it. -/
def clicked (beside : Bool) : Widget → Option Widget
  | .caption text f => if beside then some (.field text f) else some (.caption text f)
  | widget => if beside then none else some widget

/-- The field that a click puts the focus into. -/
def focusOf : Widget → Option Field
  | .field _ f => some f
  | _ => none

/-- Clicks the first widget that shows a text, or what is to the right of it: the button goes down
in one frame and comes up in the next. Answers whether there is such a widget. -/
def press (w : Window) (text : String) (beside : Bool) : Bool × Window :=
  let w := w.frame
  match w.app.widgets.find? (·.text = text) with
  | none => (false, w)
  | some widget =>
    let target := clicked beside widget
    let w := w.frameWith (·.moveFocus (target.bind focusOf))
    (true, (w.frameWith fun w => (target.map w.click).getD w).frame)

/-- Takes an edit back or makes it again, unless a text field has the focus. -/
def shortcut (app : App) (key : Key) (shift : Bool) : App :=
  match key with
  | .z => if shift then app.redo.2 else app.undo.2
  | .y => app.redo.2
  | _ => app

/-- A key in a field. -/
def fieldKey (w : Window) (f : Field) : Key → Window
  | .backspace =>
    let text := f.shown w.app
    if text = "" then w else w.modifyApp (·.edit (String.ofList text.toList.dropLast) f)
  | .enter =>
    let w := w.moveFocus none
    if f = .string then w.modifyApp App.requestStringCheck else w
  | .escape => w.moveFocus none
  | _ => w

/-- A key goes down in one frame and comes up in the next. -/
def pressKey (w : Window) (key : Key) (control shift : Bool) : Window :=
  let down := w.frameWith fun w =>
    match w.focus with
    | some f => w.fieldKey f key
    | none => if control then w.modifyApp (shortcut · key shift) else w
  down.frame

/-- Types a text at the end of the field that has the focus. -/
def type (w : Window) (text : String) : Window :=
  w.frameWith fun w =>
    match w.focus with
    | some f => if text = "" then w else w.modifyApp fun app => app.edit (f.shown app ++ text) f
    | none => w

end Window

end AutomatonSketch
