import AutomatonSketch.Canvas.Frame
import AutomatonSketch.Geometry.Grid
import AutomatonSketch.ParseTree.Layout

/-! What the canvas shows, shape by shape in the order of painting. -/

namespace AutomatonSketch

/-- A colour whose first three parts are already multiplied by its opacity. -/
structure Colour where
  red : Nat
  green : Nat
  blue : Nat
  opacity : Nat
deriving DecidableEq

namespace Colour

def black : Colour := ⟨0, 0, 0, 255⟩

def startFill : Colour := ⟨76, 175, 80, 255⟩

def nodeFill : Colour := ⟨255, 152, 0, 255⟩

def highlightFill : Colour := ⟨66, 165, 245, 255⟩

def selectedEdge : Colour := ⟨255, 235, 59, 255⟩

def gridLine : Colour := ⟨16, 16, 16, 32⟩

def text (dark : Bool) : Colour := if dark then ⟨140, 140, 140, 255⟩ else ⟨80, 80, 80, 255⟩

def weakText (dark : Bool) : Colour := if dark then ⟨84, 84, 84, 153⟩ else ⟨48, 48, 48, 153⟩

end Colour

inductive Shape where
  | disc (centre : Point) (radius : Float32) (fill : Colour)
  | ring (centre : Point) (radius width : Float32) (colour : Colour)
  | curve (start control1 control2 finish : Point) (width : Float32) (colour : Colour)
  | line (start finish : Point) (width : Float32) (colour : Colour)
  | text (position : Point) (content : String) (size : Float32) (colour : Colour)
deriving DecidableEq

namespace View

/-- The multiples of the grid step from `x` up to `last`, at most `bound` of them. -/
def gridPositions : Nat → Float32 → Float32 → List Float32
  | 0, _, _ => []
  | bound + 1, x, last => if x ≤ last then x :: gridPositions bound (x + 50) last else []

/-- The grid lines across a side of the canvas from `low` to `high`. On the screen they are at least
four apart. -/
def gridAlong (side : Nat) (low high : Float32) : List Float32 :=
  gridPositions (side / 4 + 4) ((low / 50).floor * 50) high

def grid (v : View) (size : CanvasSize) : List Shape :=
  if 50 * v.zoom < 4 then []
  else
    let width := size.width.toFloat32
    let height := size.height.toFloat32
    let low := v.toWorld .origin
    let high := v.toWorld ⟨width, height⟩
    let vertical (x : Float32) : Shape :=
      let x := (v.toScreen ⟨x, 0⟩).x
      .line ⟨x, 0⟩ ⟨x, height⟩ 1 .gridLine
    let horizontal (y : Float32) : Shape :=
      let y := (v.toScreen ⟨0, y⟩).y
      .line ⟨0, y⟩ ⟨width, y⟩ 1 .gridLine
    (gridAlong size.width low.x high.x).map vertical ++
      (gridAlong size.height low.y high.y).map horizontal

def finalRadius : Float32 := 42

def circle (v : View) (centre : Point) (fill : Colour) : List Shape :=
  let radius := TreeLayout.tokenRadius * v.zoom
  [.disc centre radius fill, .ring centre radius (2 * v.zoom) .black]

def node (v : View) (n : Node) (highlighted : Bool) : List Shape :=
  let centre := v.toScreen (.ofCoordinate n.position)
  let fill :=
    if highlighted then Colour.highlightFill
    else if n.isStart then .startFill else .nodeFill
  (if n.isFinal then [.ring centre (finalRadius * v.zoom) (2 * v.zoom) .black] else []) ++
    v.circle centre fill

def arrowSize : Float32 := 30

def arrow (v : View) (c : Curve) (colour : Colour) : List Shape :=
  let width := 2 * v.zoom
  let tip := v.toScreen (.ofCoordinate c.finish)
  let (left, right) := c.arrowHead arrowSize
  [.curve (v.toScreen (.ofCoordinate c.start)) (v.toScreen (.ofCoordinate c.control1))
      (v.toScreen (.ofCoordinate c.control2)) tip width colour,
    .line tip (v.toScreen left) width colour, .line tip (v.toScreen right) width colour]

/-- How far a label stands off its curve. -/
def labelOffset : Float32 := 50

def edge (v : View) (e : Edge) (colour : Colour) : List Shape :=
  v.arrow e.curve colour ++
    [.text (v.toScreen (e.curve.labelPosition labelOffset)) e.label (20 * v.zoom) colour]

def token (v : View) (t : PlacedToken) : List Shape :=
  let centre := v.toScreen t.position
  let fill := match t.kind with
    | .literal => Colour.nodeFill
    | .or | .concatenation => .startFill
    | .kleene => .highlightFill
  v.circle centre fill ++ [.text centre t.label (22 * v.zoom) .black]

def tree (v : View) (t : ParseTree) (colour : Colour) : List Shape :=
  let layout := t.layout (.of 0 0)
  layout.links.flatMap (v.arrow · colour) ++ layout.tokens.flatMap v.token

end View

namespace App

/-- The transition in progress, drawn to the pointer. -/
def pendingShapes (app : App) : List Shape :=
  match app.editor.pendingEdge, app.hover with
  | some pending, some pointer =>
    let target := pointer.round
    app.view.arrow { pending.curve with control2 := target, finish := target }
      (.weakText app.darkMode)
  | _, _ => []

def diagramShapes (app : App) : List Shape :=
  let d := app.editor.diagram
  let colour (i : Nat) : Colour :=
    if app.editor.selectedEdge = some i then .selectedEdge else .text app.darkMode
  d.nodes.flatMap (fun n => app.view.node n (app.highlighted.contains n.key)) ++
    (d.edges.zipIdx.flatMap fun (e, i) => app.view.edge e (colour i)) ++ app.pendingShapes

def contentShapes (app : App) : List Shape :=
  match app.shownTree? with
  | some t => app.view.tree t (.text app.darkMode)
  | none => app.diagramShapes

def scene (app : App) (size : CanvasSize) : List Shape :=
  (if app.view.showGrid then app.view.grid size else []) ++ app.contentShapes

end App

end AutomatonSketch
