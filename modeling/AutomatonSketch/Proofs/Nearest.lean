import AutomatonSketch.Proofs.Grid

/-! How near rounding comes. It goes to a nearest multiple, and to the greater one of two. But half of
an odd step is cut off before a value is compared with it: right below the middle between two
multiples it goes up, away from the nearer one. -/

namespace AutomatonSketch

/-- A multiple of `step` than which no other is nearer to `z`. -/
structure NearestMultiple (step z w : Int) : Prop where
  dvd : step ∣ w
  le : ∀ m, step ∣ m → (w - z).natAbs ≤ (m - z).natAbs

theorem le_of_dvd_of_lt_add {step a b : Int} (ha : step ∣ a) (hb : step ∣ b)
    (h : a < b + step) : a ≤ b := by
  by_cases hab : b < a
  · have hgap : step ∣ a - b := Int.dvd_sub ha hb
    have hle := Int.le_of_dvd (by omega) hgap
    omega
  · omega

theorem nearestMultiple_iff {step z low w : Int} (hlow : step ∣ low) (hle : low ≤ z)
    (hlt : z < low + step) (hw : w = low ∨ w = low + step) :
    NearestMultiple step z w ↔ (w - z).natAbs ≤ z - low ∧ (w - z).natAbs ≤ low + step - z := by
  have hhigh : step ∣ low + step := Int.dvd_add hlow (Int.dvd_refl step)
  constructor
  · intro h
    have hlower := h.le low hlow
    have hupper := h.le (low + step) hhigh
    omega
  · rintro ⟨hlower, hupper⟩
    have hdvd : step ∣ w := by
      rcases hw with rfl | rfl
      · exact hlow
      · exact hhigh
    refine ⟨hdvd, ?_⟩
    intro m hm
    -- No multiple lies strictly between `low` and the next one.
    by_cases hbelow : m ≤ low
    · omega
    · have habove := le_of_dvd_of_lt_add hhigh hm (by omega)
      omega

namespace AxisValue

/-- There are multiples of `step` within the range on both sides, the value itself included. -/
structure Enclosed (v : AxisValue) (step : Int) : Prop where
  below : ∃ low : AxisValue, step ∣ low.val ∧ low.val ≤ v.val
  above : ∃ high : AxisValue, step ∣ high.val ∧ v.val ≤ high.val

/-- Right below the middle between two multiples of an odd step. -/
def BelowMiddle (v : AxisValue) (step : Int) : Prop := step % 2 = 1 ∧ v.val % step = step / 2

instance (v : AxisValue) (step : Int) : Decidable (v.BelowMiddle step) :=
  inferInstanceAs (Decidable (_ ∧ _))

section Rounding

variable {v : AxisValue} {step : Int}

theorem exists_low_roundTo (hstep : 1 < step) (h : v.Enclosed step) :
    ∃ low, step ∣ low ∧ v.val % step = v.val - low ∧ low ≤ v.val ∧ v.val < low + step ∧
      ((v.roundTo step).val = low ∧ v.val - low < step / 2 ∨
        (v.roundTo step).val = low + step ∧ step / 2 ≤ v.val - low) := by
  obtain ⟨least, hleast, hbelow⟩ := h.below
  obtain ⟨greatest, hgreatest, habove⟩ := h.above
  have hnonneg := Int.emod_nonneg v.val (by omega : step ≠ 0)
  have hlt := Int.emod_lt_of_pos v.val (by omega : 0 < step)
  have hlow : step ∣ v.val - v.val % step := Int.dvd_self_sub_emod
  have hhigh : step ∣ v.val - v.val % step + step := Int.dvd_add hlow (Int.dvd_refl step)
  have hrange := least.least_le
  have hrange' := greatest.le_greatest
  have hsmall : ¬ step ≤ 1 := by omega
  -- The multiple chosen is enclosed as the value is, so it is in range.
  refine ⟨v.val - v.val % step, hlow, by omega, by omega, by omega, ?_⟩
  by_cases hup : step / 2 ≤ v.val % step
  · have hfits := le_of_dvd_of_lt_add hhigh hgreatest (by omega)
    refine .inr ⟨?_, by omega⟩
    simp only [roundTo, if_neg hsmall, if_pos hup, val_clamp]
    omega
  · have hfits := le_of_dvd_of_lt_add hleast hlow (by omega)
    refine .inl ⟨?_, by omega⟩
    rw [roundTo, if_neg hsmall]
    simp only [if_neg hup]
    rw [wrap_eq_clamp (by omega) (by omega), val_clamp]
    omega

/-- Rounding gives a nearest multiple, unless the value is right below the middle of an odd step;
there the next multiple below is nearer by one. Of two equally near it gives the greater. -/
theorem roundTo_nearest (hstep : 1 < step) (h : v.Enclosed step) :
    let w := (v.roundTo step).val
    step ∣ w ∧
      (NearestMultiple step v.val w ↔ ¬ v.BelowMiddle step) ∧
      (v.BelowMiddle step → NearestMultiple step v.val (w - step) ∧
        (w - v.val).natAbs = (w - step - v.val).natAbs + 1) ∧
      ∀ m, step ∣ m → m ≠ w → (m - v.val).natAbs = (w - v.val).natAbs → m < w := by
  obtain ⟨low, hlow, hexcess, hle, hlt, hrounded⟩ := exists_low_roundTo hstep h
  generalize (v.roundTo step).val = w at hrounded
  have hdvd : step ∣ w := by
    rcases hrounded with ⟨rfl, _⟩ | ⟨rfl, _⟩
    · exact hlow
    · exact Int.dvd_add hlow (Int.dvd_refl step)
  refine ⟨hdvd, ?_, ?_, ?_⟩
  · rw [nearestMultiple_iff hlow hle hlt (by omega), BelowMiddle, hexcess]
    omega
  · rintro ⟨hodd, hmiddle⟩
    rw [nearestMultiple_iff hlow hle hlt (by omega)]
    omega
  · intro m hm hne heq
    have hnext := le_of_dvd_of_lt_add hm hdvd (by omega)
    omega

/-- Two above -10 and three below -5, and rounded up: half of five is taken for two. -/
theorem roundTo_nearest_belowMiddle :
    let v := clamp (-8)
    (1 < (5 : Int) ∧ v.Enclosed 5 ∧ v.BelowMiddle 5) ∧
      (v.roundTo 5).val = -5 ∧ NearestMultiple 5 v.val (-10) ∧ ¬ NearestMultiple 5 v.val (-5) := by
  intro v
  have hstep : 1 < (5 : Int) := by decide
  have henclosed : v.Enclosed 5 := ⟨⟨clamp (-10), by decide⟩, ⟨clamp (-5), by decide⟩⟩
  have hbelow : v.BelowMiddle 5 := by decide
  have hrounded : (v.roundTo 5).val = -5 := by decide
  obtain ⟨_, hiff, hnearer, _⟩ := roundTo_nearest hstep henclosed
  rw [hrounded] at hiff hnearer
  exact ⟨⟨hstep, henclosed, hbelow⟩, hrounded, (hnearer hbelow).1,
    fun hnearest => hiff.mp hnearest hbelow⟩

theorem not_nearestMultiple_one :
    let v := clamp 1
    v.Enclosed 3 ∧ ¬ NearestMultiple 3 v.val (v.roundTo 3).val := by
  intro v
  refine ⟨⟨⟨clamp 0, by decide⟩, ⟨clamp 3, by decide⟩⟩, ?_⟩
  intro h
  have hnearer := h.le 0 (by decide)
  exact absurd hnearer (by decide)

end Rounding

end AxisValue

end AutomatonSketch
