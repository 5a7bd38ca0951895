import AutomatonSketch.Json.Shortest

/-! The exact value of a binary32, and its decimal forms. -/

namespace AutomatonSketch.Binary32

def parts? (x : Float32) : Option Binary :=
  let b : Nat := x.toBits.toNat
  let negative := decide (1 <<< 31 ≤ b)
  let biased : Nat := (b >>> 23) % 256
  let fraction : Nat := b % (1 <<< 23)
  if biased = 255 then none
  else if biased = 0 then some ⟨negative, fraction, -149⟩
  else some ⟨negative, fraction + (1 <<< 23), (biased : Int) - 150⟩

/-- The decimal number with the fewest digits that reads back as `x`. -/
def toNumber? (x : Float32) : Option Number :=
  (parts? x).map (·.shortest fun n => n.toFloat32? == some x)

/-- The number without its fraction, halves to even, as text. -/
def wholeText (x : Float32) : String :=
  match parts? x with
  | some b => String.ofList ((if b.negative then ['-'] else []) ++ Nat.toDigits 10 b.roundHalfEven)
  | none => if x.isNaN then "NaN" else if x < 0 then "-inf" else "inf"

end AutomatonSketch.Binary32
