import AutomatonSketch.Geometry.Point

/-! Cubic Bézier curves, measured by sampling. -/

namespace AutomatonSketch

/-- A cubic Bézier curve, given by its ends and two control points. -/
structure Curve where
  start : Coordinate
  control1 : Coordinate
  control2 : Coordinate
  finish : Coordinate
deriving DecidableEq, Inhabited

def Point.distanceToSegment (p a b : Point) : Float32 :=
  let sx := b.x - a.x
  let sy := b.y - a.y
  let px := p.x - a.x
  let py := p.y - a.y
  let lengthSquared := sx * sx + sy * sy
  if lengthSquared == 0 then p.distance a
  else
    let t := (px * sx + py * sy) / lengthSquared
    let t := if t < 0 then 0 else if t > 1 then 1 else t
    p.distance ⟨a.x + sx * t, a.y + sy * t⟩

namespace Curve

def degenerate (c : Coordinate) : Curve := ⟨c, c, c, c⟩

def isLoop (curve : Curve) : Bool := curve.start = curve.finish

/-- The point at parameter `t`, from the start at zero to the end at one. -/
def pointAt (curve : Curve) (t : Float32) : Point :=
  let p0 : Point := curve.start
  let p1 : Point := curve.control1
  let p2 : Point := curve.control2
  let p3 : Point := curve.finish
  let mt := 1 - t
  let a := mt * mt * mt
  let b := 3 * mt * mt * t
  let c := 3 * mt * t * t
  let d := t * t * t
  ⟨a * p0.x + b * p1.x + c * p2.x + d * p3.x, a * p0.y + b * p1.y + c * p2.y + d * p3.y⟩

/-- The angle in which the curve arrives, seen from the point at parameter 0.99. -/
def arrivalAngle (curve : Curve) : Float32 :=
  let near := curve.pointAt 0.99
  let tip : Point := curve.finish
  Float32.atan2 (tip.y - near.y) (tip.x - near.x)

/-- The least distance from `p` to the ends of `slices` equal slices of the curve. -/
def distanceFrom (curve : Curve) (p : Point) (slices : Nat) : Float32 :=
  let slices := max slices 1
  let tick := 1 / slices.toFloat32
  (List.range (slices + 1)).foldl
    (fun least i =>
      let d := p.distance (curve.pointAt (i.toFloat32 * tick))
      if d < least then d else least)
    (1 / 0)

/-- How many slices a curve is cut into to find the one under the pointer. -/
def hitSlices : Nat := 10

/-- The index of the curve nearest to `origin`, of equally near ones the first. -/
def nearestIndex (curves : List Curve) (origin : Point) (slices : Nat) : Option Nat :=
  leastIndex (curves.map (·.distanceFrom origin slices))

/-- A sixth of a half turn. -/
def wingSpread : Float32 := Float32.ofBits 0x3F060A92

/-- The outer ends of the two strokes of an arrowhead. -/
def arrowHead (curve : Curve) (size : Float32) : Point × Point :=
  let angle := curve.arrivalAngle
  let tip : Point := curve.finish
  let wing (spread : Float32) : Point :=
    ⟨tip.x - size * (angle + spread).cos, tip.y - size * (angle + spread).sin⟩
  (wing (-wingSpread), wing wingSpread)

/-- Where a label stands: off the middle, square to the angle of arrival. -/
def labelPosition (curve : Curve) (offset : Float32) : Point :=
  let angle := curve.arrivalAngle
  let middle := curve.pointAt 0.5
  ⟨middle.x + offset * angle.sin, middle.y - offset * angle.cos⟩

end Curve

end AutomatonSketch
