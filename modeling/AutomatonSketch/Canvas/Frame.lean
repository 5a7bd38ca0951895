import AutomatonSketch.App.State

/-! One frame of the canvas: centring, panning, zooming, following the pointer, clicks. -/

namespace AutomatonSketch

/-- The size of a canvas whose corner is the screen's. -/
structure CanvasSize where
  width : Nat
  height : Nat
deriving DecidableEq

namespace CanvasSize

def contains (s : CanvasSize) (p : Point) : Bool :=
  decide (0 ≤ p.x) && decide (p.x ≤ s.width.toFloat32) && decide (0 ≤ p.y) &&
    decide (p.y ≤ s.height.toFloat32)

def middle (s : CanvasSize) : Point := ⟨s.width.toFloat32 / 2, s.height.toFloat32 / 2⟩

end CanvasSize

structure PointerInput where
  position : Option Point
  /-- Whether the buttons and keys that pan are held. -/
  pans : Bool
  /-- Whether a button went down on the canvas and has not come up. -/
  grabs : Bool
  clicks : Bool
  /-- Whether the wheel turns, and if so whether inwards. -/
  wheel : Option Bool
deriving DecidableEq

namespace PointerInput

def rest (position : Option Point) : PointerInput := ⟨position, false, false, false, none⟩

end PointerInput

namespace App

def modifyView (app : App) (f : View → View) : App := { app with view := f app.view }

def centre (app : App) (size : CanvasSize) : App :=
  if app.view.centred then app
  else app.modifyView fun v => { v with offset := size.middle, centred := true }

/-- Moves the canvas with the pointer; the first frame only remembers where it is. -/
def pan (app : App) (input : PointerInput) : App :=
  if input.pans then
    match (if input.grabs then input.position else none), app.panFrom with
    | none, _ => app
    | some current, none => { app with panFrom := some current }
    | some current, some last =>
      { app.modifyView fun v => { v with offset := v.offset.add (current.sub last) } with
        panFrom := some current }
  else { app with panFrom := none }

/-- Zooms if the wheel turns over the canvas. -/
def turnWheel (app : App) (size : CanvasSize) (input : PointerInput) : App :=
  match input.wheel, input.position.filter size.contains with
  | some inwards, some p => app.modifyView (·.zoomAt p inwards)
  | _, _ => app

/-- The transition in progress, or the selected curve, follows the pointer. -/
def follow (app : App) (target : Coordinate) : App :=
  match app.editor.mode with
  | .placingEdgeEnd => app.modifyEditor (·.previewPendingEdge target)
  | .draggingEdge => app.modifyEditor fun e => (e.dragSelectedCurve? target).getD e
  | _ => app

def trackPointer (app : App) (size : CanvasSize) (input : PointerInput) : App :=
  let hover := (input.position.filter size.contains).map app.view.toWorld
  let app := { app with hover }
  match hover with
  | some world => app.follow world.round
  | none => app

def clickCanvas (app : App) (input : PointerInput) : App :=
  match input.position with
  | some p => if input.clicks then app.clickWorld (app.view.toWorld p) else app
  | none => app

/-- One frame. The diagram does not react while the parse tree covers it. -/
def canvasFrame (app : App) (size : CanvasSize) (input : PointerInput) : App :=
  let app := ((app.centre size).pan input).turnWheel size input
  if app.shownTree?.isSome then app
  else (app.trackPointer size input).clickCanvas input

end App

end AutomatonSketch
