import AutomatonSketch.Json.Binary32
import AutomatonSketch.Proofs.NumberText
import Mathlib

/-! A finite binary number is written as a decimal one that can be read again. -/

namespace AutomatonSketch

namespace Number

theorem isFinite_of_lt {coefficient : Nat} (h : coefficient < binary64Bound) (negative : Bool)
    (places : Nat) :
    (asRead (.decimal negative coefficient (-(places : Int)))).isFinite = true := by
  have hlarge {c e : Nat} (hc : c < binary64Bound * Nat.pow 10 (e + 1)) :
      (Number.decimal negative c (.negSucc e)).isFinite = true := by
    cases c with
    | zero => rfl
    | succ c => exact Bool.or_eq_true_iff.mpr (.inr (decide_eq_true hc))
  cases places with
  | zero =>
    show (if coefficient = 0 ∧ negative then .decimal true 0 0
      else .decimal negative (10 * coefficient) (-1) : Number).isFinite = true
    split
    · rfl
    · exact hlarge (by simp only [Nat.pow_eq]; omega)
  | succ places =>
    have hpow : 1 ≤ Nat.pow 10 (places + 1) := Nat.one_le_pow _ _ (by omega)
    exact hlarge (Nat.lt_of_lt_of_le h (Nat.le_mul_of_pos_right _ hpow))

end Number

namespace Binary

theorem shortened_eq (negative : Bool) (coefficient places dropped : Nat) :
    ∃ kept n : Nat, shortened negative coefficient places dropped =
      .decimal negative kept (-(n : Int)) ∧ kept ≤ coefficient + 10 ^ dropped := by
  have hpow : 1 ≤ 10 ^ dropped := Nat.one_le_pow _ _ (by omega)
  have hscaled : (coefficient + 10 ^ dropped / 2) / 10 ^ dropped * 10 ^ dropped ≤
      coefficient + 10 ^ dropped := by
    have h := Nat.div_mul_le_self (coefficient + 10 ^ dropped / 2) (10 ^ dropped)
    omega
  unfold shortened
  simp only [Nat.pow_eq]
  split
  · refine ⟨_, places - dropped, rfl, ?_⟩
    exact (Nat.le_mul_of_pos_right _ hpow).trans hscaled
  · refine ⟨_, 0, rfl, ?_⟩
    have hless : 10 ^ (dropped - places) ≤ 10 ^ dropped :=
      Nat.pow_le_pow_right (by omega) (by omega)
    exact (Nat.mul_le_mul_left _ hless).trans hscaled

/-- The shortest decimal number is short of no more digits than the exact one has. -/
theorem shortest_eq (b : Binary) (readsBack : Number → Bool) : ∃ dropped,
    b.shortest readsBack = shortened b.negative b.decimalPlaces.1 b.decimalPlaces.2 dropped ∧
      dropped < (Nat.toDigits 10 b.decimalPlaces.1).length := by
  have hsize : 0 < (Nat.toDigits 10 b.decimalPlaces.1).length :=
    List.length_pos_iff.mpr Nat.toDigits_ne_nil
  let shorten := shortened b.negative b.decimalPlaces.1 b.decimalPlaces.2
  let candidates := (List.range (Nat.toDigits 10 b.decimalPlaces.1).length).reverse.map shorten
  have hshortest : b.shortest readsBack = (candidates.find? readsBack).getD (shorten 0) := rfl
  cases hfind : candidates.find? readsBack with
  | none => exact ⟨0, by rw [hshortest, hfind]; rfl, hsize⟩
  | some n =>
    obtain ⟨dropped, hdropped, hn⟩ := List.mem_map.mp (List.mem_of_find?_eq_some hfind)
    refine ⟨dropped, ?_, List.mem_range.mp (List.mem_reverse.mp hdropped)⟩
    rw [hshortest, hfind]
    exact hn.symm

theorem isFinite_shortest {b : Binary} (h : b.decimalPlaces.1 < 10 ^ 200)
    (readsBack : Number → Bool) : (b.shortest readsBack).asRead.isFinite = true := by
  obtain ⟨dropped, hshortest, hdropped⟩ := b.shortest_eq readsBack
  obtain ⟨kept, n, hshortened, hkept⟩ :=
    shortened_eq b.negative b.decimalPlaces.1 b.decimalPlaces.2 dropped
  have hdigits : (Nat.toDigits 10 b.decimalPlaces.1).length ≤ 200 :=
    (Nat.length_toDigits_le_iff (by omega) (by omega)).mpr h
  have hpow : 10 ^ dropped ≤ 10 ^ 200 := Nat.pow_le_pow_right (by omega) (by omega)
  have hbound : 10 ^ 200 + 10 ^ 200 < Number.binary64Bound := by decide
  rw [hshortest, hshortened]
  exact Number.isFinite_of_lt (by omega) b.negative n

end Binary

namespace Binary32

theorem isFinite_iff (x : Float32) : x.isFinite = true ↔ (x.toBits.toNat >>> 23) % 256 ≠ 255 := by
  have hexponent : @Float.Model.UnpackedFloat.unpackExponent Float.Model.Format.binary32
      x.toModel.toBits.toBitVec = -1#8 ↔ (x.toBits.toNat >>> 23) % 256 = 255 := by
    rw [← BitVec.toNat_inj]
    simp [Float.Model.UnpackedFloat.unpackExponent, Float32.toBits]
  rw [Ne, ← hexponent]
  show (Float.Model.UnpackedFloat.unpack Float.Model.Format.binary32
    x.toModel.toBits.toBitVec).isFinite = true ↔ _
  unfold Float.Model.UnpackedFloat.unpack
  dsimp only
  split
  · split <;> simp_all [Float.Model.UnpackedFloat.isFinite]
  · split
    · split <;> simp_all [Float.Model.UnpackedFloat.isFinite]
    · simp_all [Float.Model.UnpackedFloat.isFinite]

/-- The parts of a finite number. -/
theorem exists_parts {x : Float32} (h : x.isFinite = true) :
    ∃ b, parts? x = some b ∧ b.mantissa < 2 ^ 24 ∧ -149 ≤ b.exponent ∧ b.exponent ≤ 104 := by
  have hbiased := (isFinite_iff x).mp h
  have hless : (x.toBits.toNat >>> 23) % 256 < 256 := Nat.mod_lt _ (by omega)
  have hfraction : x.toBits.toNat % (1 <<< 23) < 2 ^ 23 := Nat.mod_lt _ (by decide)
  unfold parts?
  simp only [if_neg hbiased]
  split
  · exact ⟨_, rfl, by simp only; omega, by simp, by simp⟩
  · refine ⟨_, rfl, ?_, ?_, ?_⟩ <;> simp only <;> omega

theorem decimalPlaces_lt {b : Binary} (hmantissa : b.mantissa < 2 ^ 24) (hleast : -149 ≤ b.exponent)
    (hgreatest : b.exponent ≤ 104) : b.decimalPlaces.1 < 10 ^ 200 := by
  obtain ⟨negative, mantissa, exponent⟩ := b
  simp only at hmantissa hleast hgreatest
  cases exponent with
  | ofNat e =>
    have he : e ≤ 104 := by simpa using hgreatest
    have hpow : 2 ^ e ≤ 2 ^ 104 := Nat.pow_le_pow_right (by omega) he
    show mantissa <<< e < 10 ^ 200
    rw [Nat.shiftLeft_eq]
    exact (Nat.mul_lt_mul_of_lt_of_le hmantissa hpow (by decide)).trans (by decide)
  | negSucc e =>
    have he : e + 1 ≤ 149 := by omega
    have hpow : Nat.pow 5 (e + 1) ≤ 5 ^ 149 := Nat.pow_le_pow_right (by omega) he
    show mantissa * Nat.pow 5 (e + 1) < 10 ^ 200
    exact (Nat.mul_lt_mul_of_lt_of_le hmantissa hpow (by decide)).trans (by decide)

theorem exists_toNumber {x : Float32} (h : x.isFinite = true) :
    ∃ n, toNumber? x = some n ∧ n.asRead.isFinite = true := by
  obtain ⟨b, hparts, hmantissa, hleast, hgreatest⟩ := exists_parts h
  have hplaces := decimalPlaces_lt hmantissa hleast hgreatest
  exact ⟨_, by rw [toNumber?, hparts, Option.map_some], Binary.isFinite_shortest hplaces _⟩

end Binary32

end AutomatonSketch
