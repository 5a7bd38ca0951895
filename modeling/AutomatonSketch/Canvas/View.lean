import AutomatonSketch.Geometry.Point

/-! How the canvas shows the plane: moved, scaled, with or without the grid. -/

namespace AutomatonSketch

def Point.add (p q : Point) : Point := ⟨p.x + q.x, p.y + q.y⟩

def Point.sub (p q : Point) : Point := ⟨p.x - q.x, p.y - q.y⟩

def Point.origin : Point := ⟨0, 0⟩

structure View where
  /-- Where the origin of the plane appears on the screen. -/
  offset : Point
  zoom : Float32
  showGrid : Bool
  /-- Whether the parse tree is wanted instead of the diagram. -/
  showParseTree : Bool
  /-- Whether the origin has been put into the middle of the canvas. -/
  centred : Bool
deriving DecidableEq

namespace View

def initial : View := ⟨.origin, 1, true, false, false⟩

instance : Inhabited View := ⟨initial⟩

def toWorld (v : View) (screen : Point) : Point :=
  let p := screen.sub v.offset
  ⟨p.x / v.zoom, p.y / v.zoom⟩

def toScreen (v : View) (world : Point) : Point :=
  Point.add ⟨world.x * v.zoom, world.y * v.zoom⟩ v.offset

def leastZoom : Float32 := 0.25

def greatestZoom : Float32 := 4

def zoomStep : Float32 := 0.025

/-- The least difference of zoom that counts. -/
def zoomThreshold : Float32 := Float32.ofBits 0x34000000

def clampZoom (z : Float32) : Float32 :=
  if z < leastZoom then leastZoom else if z > greatestZoom then greatestZoom else z

/-- Zooms one step, in or out, and keeps the point under the pointer where it is. -/
def zoomAt (v : View) (pointer : Point) (inwards : Bool) : View :=
  let world := v.toWorld pointer
  let zoom := clampZoom (v.zoom + (if inwards then zoomStep else -zoomStep))
  let zoomed := { v with zoom }
  if (zoom - v.zoom).abs > zoomThreshold then
    { zoomed with offset := v.offset.add (pointer.sub (zoomed.toScreen world)) }
  else zoomed

end View

end AutomatonSketch
