import AutomatonSketch.Canvas.Frame

/-! Pressing a button, moving the pointer and letting go, frame by frame. -/

namespace AutomatonSketch

/-- A drag along a path; with the middle button, or with the control key held, it pans. -/
structure Gesture where
  path : List Point
  control : Bool
  middle : Bool
deriving DecidableEq

namespace Gesture

/-- How far a click may stray from where it began. -/
def clickReach : Float32 := 6

/-- The distance between two points, rounded once. -/
def strayed (p q : Point) : Float32 :=
  let dx := (q.x - p.x).toFloat
  let dy := (q.y - p.y).toFloat
  (dx * dx + dy * dy).sqrt.toFloat32

def pans (g : Gesture) : Bool := g.control || g.middle

/-- Whether the gesture is a click: a plain one that stays near where it began. -/
def isClick (g : Gesture) (first : Point) : Bool :=
  !g.pans && g.path.all fun p => !decide (strayed first p > clickReach)

/-- The frames up to the last one with the button down. -/
def pressed (g : Gesture) (size : CanvasSize) : List PointerInput :=
  match g.path with
  | [] => []
  | first :: _ =>
    let grabs := size.contains first
    .rest (some first) :: g.path.map fun p => ⟨some p, g.pans, grabs, false, none⟩

/-- The frame in which the button comes up. -/
def released (g : Gesture) (size : CanvasSize) : PointerInput :=
  ⟨g.path.getLast?, false, false,
    g.path.head?.any fun first => size.contains first && g.isClick first, none⟩

end Gesture

end AutomatonSketch
