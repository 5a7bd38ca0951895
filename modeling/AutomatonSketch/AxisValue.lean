/-! Positions on one axis of the drawing plane: 32-bit signed integers, with arithmetic that stops
at the ends of the range or wraps around there. -/

namespace AutomatonSketch

/-- A 32-bit signed integer. -/
structure AxisValue where
  val : Int
  least_le : -2147483648 ≤ val
  le_greatest : val ≤ 2147483647
deriving DecidableEq

namespace AxisValue

/-- The value nearest to an integer. -/
def clamp (z : Int) : AxisValue :=
  ⟨max (-2147483648) (min z 2147483647), by omega, by omega⟩

/-- The value that an integer comes to if the range is gone round. -/
def wrap (z : Int) : AxisValue :=
  ⟨(z + 2147483648) % 4294967296 - 2147483648, by omega, by omega⟩

def ofInt? (z : Int) : Option AxisValue :=
  if h : -2147483648 ≤ z ∧ z ≤ 2147483647 then some ⟨z, h.1, h.2⟩ else none

instance : Inhabited AxisValue := ⟨clamp 0⟩

/-- Addition that stops at the ends of the range. -/
def shift (a b : AxisValue) : AxisValue := clamp (a.val + b.val)

theorem ext_val {a b : AxisValue} (h : a.val = b.val) : a = b := by
  cases a; cases b; simpa using h

theorem val_clamp (z : Int) : (clamp z).val = max (-2147483648) (min z 2147483647) := rfl

theorem val_wrap (z : Int) : (wrap z).val = (z + 2147483648) % 4294967296 - 2147483648 := rfl

theorem wrap_eq_clamp {z : Int} (hleast : -2147483648 ≤ z) (hgreatest : z ≤ 2147483647) :
    wrap z = clamp z :=
  ext_val (by rw [val_wrap, val_clamp]; omega)

@[simp] theorem clamp_val (a : AxisValue) : clamp a.val = a := by
  have h1 := a.least_le
  have h2 := a.le_greatest
  exact ext_val (by rw [val_clamp]; omega)

theorem ofInt?_eq_some_iff {z : Int} {a : AxisValue} : ofInt? z = some a ↔ a.val = z := by
  unfold ofInt?
  constructor
  · intro h
    split at h
    · exact Option.some.inj h ▸ rfl
    · exact absurd h (by simp)
  · rintro rfl
    rw [dif_pos ⟨a.least_le, a.le_greatest⟩]

@[simp] theorem ofInt?_val (a : AxisValue) : ofInt? a.val = some a := ofInt?_eq_some_iff.2 rfl

end AxisValue

end AutomatonSketch
