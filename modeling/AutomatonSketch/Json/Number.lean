import AutomatonSketch.Json.Value
import AutomatonSketch.Text.Numeral

/-! The grammar of JSON numbers, and the binary numbers they stand for. -/

namespace AutomatonSketch.Number

def digitsFirst (cs : List Char) : List Char × List Char :=
  (cs.takeWhile Char.isDigit, cs.dropWhile Char.isDigit)

/-- The exponent after its `e`: an optional sign and at least one digit. -/
def exponent? (cs : List Char) : Option Int := Numeral.integer? cs

/-- What follows the integral digits: a fraction, an exponent, both or neither. -/
def tail? (negative : Bool) (integral : List Char) : List Char → Option Number
  | [] =>
    let magnitude := Nat.ofDigitChars 10 integral 0
    if negative then
      some (if magnitude = 0 then .decimal true 0 0 else .integer (-(magnitude : Int)))
    else some (.integer magnitude)
  | '.' :: cs =>
    let (fraction, rest) := digitsFirst cs
    if fraction.isEmpty then none
    else
      let coefficient := Nat.ofDigitChars 10 (integral ++ fraction) 0
      match rest with
      | [] => some (.decimal negative coefficient (-(fraction.length : Int)))
      | e :: cs =>
        if e = 'e' ∨ e = 'E' then
          (exponent? cs).map fun x => .decimal negative coefficient (x - fraction.length)
        else none
  | e :: cs =>
    if e = 'e' ∨ e = 'E' then
      (exponent? cs).map fun x => .decimal negative (Nat.ofDigitChars 10 integral 0) x
    else none

/-- Reads digits without leading zeros, and what follows them. -/
def unsigned? (negative : Bool) (cs : List Char) : Option Number :=
  match digitsFirst cs with
  | ([], _) => none
  | ('0' :: _ :: _, _) => none
  | (integral, rest) => tail? negative integral rest

def ofChars? : List Char → Option Number
  | '-' :: cs => unsigned? true cs
  | cs => unsigned? false cs

/-- The least number that rounds to no finite binary64. -/
def binary64Bound : Nat := ((1 <<< 54) - 1) <<< 970

def isFinite : Number → Bool
  | .integer z => z.natAbs < binary64Bound
  | .decimal _ 0 _ => true
  | .decimal _ c (.ofNat e) => e < 310 && c * Nat.pow 10 e < binary64Bound
  | .decimal _ c (.negSucc e) => c.log2 ≤ e || c < binary64Bound * Nat.pow 10 (e + 1)

/-- The binary64 nearest to a coefficient times a power of ten. Below 10⁻⁴⁰⁰ that is zero. -/
def scaled (coefficient : Nat) : Int → Float
  | .ofNat e => if coefficient = 0 then 0 else Float.ofScientific coefficient false e
  | .negSucc e =>
    if coefficient.log2 + 400 ≤ e then 0 else Float.ofScientific coefficient true (e + 1)

def toFloat : Number → Float
  | .integer z => if z < 0 then -(Float.ofNat z.natAbs) else Float.ofNat z.natAbs
  | .decimal negative c e => if negative then -(scaled c e) else scaled c e

/-- The binary32 read from a finite number by way of binary64. -/
def toFloat32? (n : Number) : Option Float32 :=
  if n.isFinite then some n.toFloat.toFloat32 else none

end AutomatonSketch.Number
