import AutomatonSketch.Geometry.Grid

/-! Snapping to the grid. What a point snaps to is on the grid, at the upper end of the range too.
At the lower end the multiple right below may be out of range; what wraps around lies off the
grid. -/

namespace AutomatonSketch

namespace AxisValue

/-- Rounding down leaves the range. -/
def Wraps (v : AxisValue) (step : Int) : Prop :=
  1 < step ∧ v.val % step < step / 2 ∧ v.val - v.val % step < -2147483648

instance (v : AxisValue) (step : Int) : Decidable (v.Wraps step) :=
  inferInstanceAs (Decidable (_ ∧ _ ∧ _))

section Nearest

variable {v : AxisValue} {step w : Int}

theorem exists_nearest_multiple (z : Int) {step : Int} (hstep : 1 < step) :
    ∃ w, step ∣ w ∧ w - (step - step / 2) ≤ z ∧ z < w + step / 2 := by
  have hnonneg := Int.emod_nonneg z (by omega : step ≠ 0)
  have hlt := Int.emod_lt_of_pos z (by omega : 0 < step)
  have hdvd : step ∣ z - z % step := Int.dvd_self_sub_emod
  by_cases hup : step / 2 ≤ z % step
  · have hnext : step ∣ z - z % step + step := Int.dvd_add hdvd (Int.dvd_refl step)
    exact ⟨z - z % step + step, hnext, by omega, by omega⟩
  · exact ⟨z - z % step, hdvd, by omega, by omega⟩

theorem emod_of_lt_multiple (hw : step ∣ w) (hlow : w - step ≤ v.val) (hhigh : v.val < w) :
    v.val % step = v.val - w + step := by
  obtain ⟨k, rfl⟩ := hw
  have hsplit : v.val = (v.val - step * k + step) + step * (k - 1) := by
    rw [Int.mul_sub]
    omega
  rw [hsplit, Int.add_mul_emod_self_left, ← hsplit]
  exact Int.emod_eq_of_lt (by omega) (by omega)

theorem emod_of_multiple_le (hw : step ∣ w) (hlow : w ≤ v.val) (hhigh : v.val < w + step) :
    v.val % step = v.val - w := by
  obtain ⟨k, rfl⟩ := hw
  have hsplit : v.val = (v.val - step * k) + step * k := by omega
  rw [hsplit, Int.add_mul_emod_self_left, ← hsplit]
  exact Int.emod_eq_of_lt (by omega) (by omega)

section Chosen

variable (hstep : 1 < step) (hw : step ∣ w) (hlow : w - (step - step / 2) ≤ v.val)
  (hhigh : v.val < w + step / 2)

include hstep hw hlow hhigh

theorem wraps_iff : v.Wraps step ↔ w < -2147483648 := by
  have hleast := v.least_le
  by_cases hbelow : v.val < w
  · rw [Wraps, emod_of_lt_multiple hw (by omega) hbelow]
    omega
  · rw [Wraps, emod_of_multiple_le hw (by omega) (by omega)]
    omega

theorem roundTo_eq_clamp (hrange : -2147483648 ≤ w) : v.roundTo step = clamp w := by
  have hgreatest := v.le_greatest
  have hsmall : ¬ step ≤ 1 := by omega
  simp only [roundTo, if_neg hsmall]
  by_cases hbelow : v.val < w
  · rw [emod_of_lt_multiple hw (by omega) hbelow, if_pos (by omega)]
    congr 1
    omega
  · have hback : v.val - (v.val - w) = w := by omega
    rw [emod_of_multiple_le hw (by omega) (by omega), if_neg (by omega), hback]
    exact wrap_eq_clamp hrange (by omega)

end Chosen

/-- The multiple that a value is rounded to, if that does not leave the range downwards. -/
theorem exists_multiple_roundTo (hstep : 1 < step) (hv : ¬ v.Wraps step) :
    ∃ w, step ∣ w ∧ -2147483648 ≤ w ∧ w - (step - step / 2) ≤ v.val ∧ v.val < w + step / 2 ∧
      v.roundTo step = clamp w := by
  obtain ⟨w, hw, hlow, hhigh⟩ := exists_nearest_multiple v.val hstep
  have hrange : -2147483648 ≤ w := by
    rw [wraps_iff hstep hw hlow hhigh] at hv
    omega
  exact ⟨w, hw, hrange, hlow, hhigh, roundTo_eq_clamp hstep hw hlow hhigh hrange⟩

end Nearest

theorem roundTo_of_not_lt {step : Int} (hstep : ¬ 1 < step) (v : AxisValue) : v.roundTo step = v :=
  if_pos (by omega)

/-- At the upper end of the range the nearest multiple may lie beyond it, and is still the nearest
one. -/
theorem roundTo_roundTo {v : AxisValue} {step : Int} (h : ¬ v.Wraps step) :
    (v.roundTo step).roundTo step = v.roundTo step := by
  by_cases hstep : 1 < step
  · obtain ⟨w, hw, hrange, hlow, hhigh, hround⟩ := exists_multiple_roundTo hstep h
    have hgreatest := v.le_greatest
    rw [hround]
    refine roundTo_eq_clamp hstep hw ?_ ?_ hrange
    all_goals
      rw [val_clamp]
      omega
  · rw [roundTo_of_not_lt hstep, roundTo_of_not_lt hstep]

theorem roundTo_fifty_of_wraps {v : AxisValue} (h : v.Wraps 50) :
    v.roundTo 50 = wrap (-2147483650) := by
  obtain ⟨_, hdown, hout⟩ := h
  have hleast := v.least_le
  have hbelow : v.val - v.val % 50 = -2147483650 := by omega
  have hsmall : ¬ (50 : Int) ≤ 1 := by decide
  simp only [roundTo, if_neg hsmall, if_neg (Int.not_le.mpr hdown), hbelow]

/-- What wraps around with this step ends up between two multiples. -/
theorem roundTo_fifty_iff {v : AxisValue} :
    (v.roundTo 50).roundTo 50 = v.roundTo 50 ↔ ¬ v.Wraps 50 := by
  refine ⟨fun hagain hwraps => ?_, roundTo_roundTo⟩
  rw [roundTo_fifty_of_wraps hwraps] at hagain
  exact absurd hagain (by decide)

example : ((clamp (-2147483648)).roundTo 50).val = 2147483646 := by decide

end AxisValue

namespace Coordinate

/-- A point of the grid that clicks snap to. -/
def OnGrid (c : Coordinate) : Prop := c.roundTo gridStep = c

instance (c : Coordinate) : Decidable c.OnGrid := inferInstanceAs (Decidable (_ = _))

/-- Snapping to the grid leaves the range, in one of the two directions at least. -/
def Wraps (c : Coordinate) : Prop := c.x.Wraps gridStep ∨ c.y.Wraps gridStep

instance (c : Coordinate) : Decidable c.Wraps := inferInstanceAs (Decidable (_ ∨ _))

theorem onGrid_roundTo_iff {c : Coordinate} : (c.roundTo gridStep).OnGrid ↔ ¬ c.Wraps := by
  simp only [OnGrid, roundTo, Wraps, gridStep, mk.injEq, AxisValue.roundTo_fifty_iff, not_or]

end Coordinate

theorem Point.onGrid_snap_iff {p : Point} :
    (p.snap Coordinate.gridStep).OnGrid ↔ ¬ p.round.Wraps :=
  Coordinate.onGrid_roundTo_iff

end AutomatonSketch
