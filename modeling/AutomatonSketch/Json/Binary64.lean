import AutomatonSketch.Json.Shortest

/-! The exact value of a binary64, and its shortest decimal text. -/

namespace AutomatonSketch.Binary64

def parts? (x : Float) : Option Binary :=
  let b : Nat := x.toBits.toNat
  let negative := decide (1 <<< 63 ≤ b)
  let biased : Nat := (b >>> 52) % 2048
  let fraction : Nat := b % (1 <<< 52)
  if biased = 2047 then none
  else if biased = 0 then some ⟨negative, fraction, -1074⟩
  else some ⟨negative, fraction + (1 <<< 52), (biased : Int) - 1075⟩

/-- Digits times a power of ten: positional, and with a point, between 10⁻⁵ and 10¹⁶, else with one
digit before the point and an exponent. -/
def layOut (digits : List Char) (exponent : Int) : List Char :=
  let before : Int := digits.length + exponent
  if 0 ≤ exponent ∧ before ≤ 16 then digits ++ List.replicate exponent.toNat '0' ++ ['.', '0']
  else if 0 < before ∧ before ≤ 16 then
    digits.take before.toNat ++ '.' :: digits.drop before.toNat
  else if -5 < before ∧ before ≤ 0 then
    '0' :: '.' :: List.replicate before.natAbs '0' ++ digits
  else
    let power := 'e' :: Numeral.ofInt (before - 1)
    match digits with
    | [] => power
    | [d] => d :: power
    | d :: ds => d :: '.' :: ds ++ power

/-- The digits of a coefficient without the zeros at their end, and the power of ten they stand
for. -/
def significant (coefficient : Nat) (exponent : Int) : List Char × Int :=
  let reversed := (Nat.toDigits 10 coefficient).reverse
  let kept := reversed.dropWhile (· = '0')
  (kept.reverse, exponent + (reversed.length - kept.length : Nat))

/-- The text of a finite number with the fewest digits that read back as it. -/
def text (x : Float) : String :=
  match (parts? x).map fun b => b.shortest fun n => n.isFinite && n.toFloat == x with
  | some (Number.decimal negative coefficient exponent) =>
    let sign := if negative then ['-'] else []
    let (digits, exponent) := significant coefficient exponent
    String.ofList (sign ++ if digits.isEmpty then ['0', '.', '0'] else layOut digits exponent)
  | _ => if x.isNaN then "NaN" else if x < 0 then "-inf" else "inf"

end AutomatonSketch.Binary64
