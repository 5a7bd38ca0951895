import AutomatonSketch.Coordinate

/-! Points off the grid, in binary32. Sums and products are taken in the order written, since
each one rounds. -/

namespace AutomatonSketch

def AxisValue.toFloat32 (a : AxisValue) : Float32 := (Float.ofInt a.val).toFloat32

/-- The value nearest to a number, halves away from zero; of a NaN, zero. -/
def AxisValue.ofFloat32 (x : Float32) : AxisValue := .clamp x.round.toInt32.toInt

structure Point where
  x : Float32
  y : Float32
deriving DecidableEq

namespace Point

instance : Inhabited Point := ⟨⟨0, 0⟩⟩

def ofCoordinate (c : Coordinate) : Point := ⟨c.x.toFloat32, c.y.toFloat32⟩

def distance (p q : Point) : Float32 :=
  ((p.x - q.x) * (p.x - q.x) + (p.y - q.y) * (p.y - q.y)).sqrt

/-- The nearest point of the grid, halves away from zero. -/
def round (p : Point) : Coordinate := ⟨.ofFloat32 p.x, .ofFloat32 p.y⟩

end Point

instance : Coe Coordinate Point := ⟨Point.ofCoordinate⟩

/-- Whether `x` is the least so far; anything is if nothing has been seen. -/
def isNewLeast (x : Float32) : Option Float32 → Bool
  | none => true
  | some least => x < least

/-- The index of the least of the measures, of equal ones the first. -/
def leastIndex (measures : List Float32) : Option Nat :=
  (go measures 0 none).map (·.1)
where
  go : List Float32 → Nat → Option (Nat × Float32) → Option (Nat × Float32)
    | [], _, best => best
    | x :: xs, i, best =>
      go xs (i + 1) (if isNewLeast x (best.map (·.2)) then some (i, x) else best)

/-- The index of the point nearest to `origin`, of equally near ones the first. -/
def nearestIndex (points : List Point) (origin : Point) : Option Nat :=
  leastIndex (points.map (·.distance origin))

end AutomatonSketch
