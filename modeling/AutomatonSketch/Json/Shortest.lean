import AutomatonSketch.Json.Number

/-! Binary numbers as decimal ones: in full, rounded, and with the fewest digits. -/

namespace AutomatonSketch

/-- A finite binary number: a sign, and `mantissa` times a power of two. -/
structure Binary where
  negative : Bool
  mantissa : Nat
  exponent : Int
deriving DecidableEq

namespace Binary

/-- The magnitude rounded to a natural number, halves to even. -/
def roundHalfEven (b : Binary) : Nat :=
  match b.exponent with
  | .ofNat e => b.mantissa <<< e
  | .negSucc e =>
    let unit := 1 <<< (e + 1)
    let quotient := b.mantissa / unit
    let twice := 2 * (b.mantissa % unit)
    if twice < unit ∨ (twice = unit ∧ quotient % 2 = 0) then quotient else quotient + 1

/-- The magnitude in full, as a coefficient and the number of decimal places. -/
def decimalPlaces (b : Binary) : Nat × Nat :=
  match b.exponent with
  | .ofNat e => (b.mantissa <<< e, 0)
  | .negSucc e => (b.mantissa * Nat.pow 5 (e + 1), e + 1)

/-- A coefficient and decimal places, less the last `dropped` digits, halves upwards. -/
def shortened (negative : Bool) (coefficient places dropped : Nat) : Number :=
  let kept := (coefficient + Nat.pow 10 dropped / 2) / Nat.pow 10 dropped
  if dropped ≤ places then .decimal negative kept (-((places - dropped : Nat) : Int))
  else .decimal negative (kept * Nat.pow 10 (dropped - places)) 0

/-- The decimal number with the fewest digits that reads back as the binary one. -/
def shortest (b : Binary) (readsBack : Number → Bool) : Number :=
  let (coefficient, places) := b.decimalPlaces
  let size := (Nat.toDigits 10 coefficient).length
  let candidates := (List.range size).reverse.map (shortened b.negative coefficient places)
  (candidates.find? readsBack).getD (shortened b.negative coefficient places 0)

end Binary

end AutomatonSketch
