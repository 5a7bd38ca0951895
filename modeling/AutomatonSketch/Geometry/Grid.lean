import AutomatonSketch.Geometry.Point

/-! The grid that clicks snap to. -/

namespace AutomatonSketch

namespace AxisValue

/-- The nearest multiple of `step`, halves upwards; any value if `step` is at most one. A multiple
above the range comes to the end of it. One below wraps around; where arithmetic is checked, the
program stops there instead. -/
def roundTo (v : AxisValue) (step : Int) : AxisValue :=
  if step ≤ 1 then v
  else
    let excess := v.val % step
    if step / 2 ≤ excess then clamp (v.val + (step - excess)) else wrap (v.val - excess)

end AxisValue

namespace Coordinate

def roundTo (c : Coordinate) (step : Int) : Coordinate := ⟨c.x.roundTo step, c.y.roundTo step⟩

/-- The spacing of the grid that clicks snap to. -/
def gridStep : Int := 50

end Coordinate

/-- The multiple of `step` that a free point snaps to. -/
def Point.snap (p : Point) (step : Int) : Coordinate := p.round.roundTo step

end AutomatonSketch
