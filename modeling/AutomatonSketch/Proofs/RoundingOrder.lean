import AutomatonSketch.Proofs.Nearest

/-! Rounding keeps the order of values and leaves alone what it gives, as long as it stays in range
at the lower end. Where the next multiple lies beyond the upper end, that end is what it gives,
whether a multiple or not. -/

namespace AutomatonSketch

namespace AxisValue

section Order

variable {v w : AxisValue} {step : Int}

theorem clamp_le_clamp {a b : Int} (h : a ≤ b) : (clamp a).val ≤ (clamp b).val := by
  rw [val_clamp, val_clamp]
  omega

theorem val_clamp_of_mem {z : Int} (hleast : -2147483648 ≤ z) (hgreatest : z ≤ 2147483647) :
    (clamp z).val = z := by
  rw [val_clamp]
  omega

theorem val_clamp_of_lt {z : Int} (h : 2147483647 < z) : (clamp z).val = 2147483647 := by
  rw [val_clamp]
  omega

theorem roundTo_le_roundTo (hv : ¬ v.Wraps step) (h : v.val ≤ w.val) :
    (v.roundTo step).val ≤ (w.roundTo step).val := by
  by_cases hstep : 1 < step
  · obtain ⟨a, ha, hrange, halow, hahigh, hround⟩ := exists_multiple_roundTo hstep hv
    obtain ⟨b, hb, hblow, hbhigh⟩ := exists_nearest_multiple w.val hstep
    -- The multiples stand in the order of the values, since less than a step would part them.
    have hle : a ≤ b := le_of_dvd_of_lt_add ha hb (by omega)
    rw [hround, roundTo_eq_clamp hstep hb hblow hbhigh (by omega)]
    exact clamp_le_clamp hle
  · rwa [roundTo_of_not_lt hstep, roundTo_of_not_lt hstep]

theorem dvd_or_greatest_roundTo (hv : ¬ v.Wraps step) (hstep : 1 < step) :
    step ∣ (v.roundTo step).val ∨
      (v.roundTo step).val = 2147483647 ∧ 2147483647 < v.val - v.val % step + step := by
  obtain ⟨a, ha, hrange, hlow, _, hround⟩ := exists_multiple_roundTo hstep hv
  rw [hround]
  by_cases hfits : a ≤ 2147483647
  · rw [val_clamp_of_mem hrange hfits]
    exact .inl ha
  · have hgreatest := v.le_greatest
    have hexcess := emod_of_lt_multiple (v := v) ha (by omega) (by omega)
    exact .inr ⟨val_clamp_of_lt (by omega), by omega⟩

/-- Rounding is monotone and idempotent for every step, unless it leaves the range downwards. What
it gives is a multiple of the step, or the upper end of the range if the next multiple lies
beyond. -/
theorem roundTo_steady (step : Int) (h : v.val ≤ w.val) (hv : ¬ v.Wraps step) :
    (v.roundTo step).val ≤ (w.roundTo step).val ∧
      (v.roundTo step).roundTo step = v.roundTo step ∧
      (1 < step → step ∣ (v.roundTo step).val ∨
        (v.roundTo step).val = 2147483647 ∧ 2147483647 < v.val - v.val % step + step) :=
  ⟨roundTo_le_roundTo hv h, roundTo_roundTo hv, dvd_or_greatest_roundTo hv⟩

/-- The next multiple of 50 is 2147483650, out of range. -/
theorem roundTo_steady_atEnd :
    let v := clamp 2147483625
    let w := clamp 2147483646
    v.val ≤ w.val ∧ ¬ v.Wraps 50 ∧ (v.roundTo 50).val ≤ (w.roundTo 50).val ∧
      (v.roundTo 50).roundTo 50 = v.roundTo 50 ∧ (v.roundTo 50).val = 2147483647 ∧
      ¬ (50 : Int) ∣ (v.roundTo 50).val := by
  intro v w
  have hle : v.val ≤ w.val := by decide
  have hv : ¬ v.Wraps 50 := by decide
  have hbeyond : ¬ (50 : Int) ∣ (v.roundTo 50).val := by decide
  obtain ⟨hmonotone, hagain, hresult⟩ := roundTo_steady 50 hle hv
  have hend := (hresult (by decide)).resolve_left hbeyond
  exact ⟨hle, hv, hmonotone, hagain, hend.1, hbeyond⟩

end Order

end AxisValue

end AutomatonSketch
