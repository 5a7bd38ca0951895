import AutomatonSketch.Coordinate

/-! The key of a coordinate names that coordinate and no other. -/

namespace AutomatonSketch

namespace Numeral

theorem eq_minus_or_isDigit_of_mem {z : Int} {c : Char} (h : c ∈ ofInt z) :
    c = '-' ∨ c.isDigit = true := by
  have hdigits {n : Nat} (hc : c ∈ Nat.toDigits 10 n) : c.isDigit = true :=
    Nat.isDigit_of_mem_toDigits (by omega) (by omega) hc
  unfold ofInt at h
  split at h
  · exact (List.mem_cons.mp h).imp_right hdigits
  · exact .inr (hdigits h)

theorem comma_not_mem_ofInt (z : Int) : ',' ∉ ofInt z := by
  intro hc
  rcases eq_minus_or_isDigit_of_mem hc with h | h <;> simp [Char.isDigit] at h

theorem integer?_of_isDigit {c : Char} {cs : List Char} (h : c.isDigit = true) :
    integer? (c :: cs) = (natural? (c :: cs)).map Int.ofNat := by
  have hminus : c ≠ '-' := by rintro rfl; simp [Char.isDigit] at h
  have hplus : c ≠ '+' := by rintro rfl; simp [Char.isDigit] at h
  unfold integer?
  split
  · rename_i he
    exact absurd (List.cons.inj he).1 hminus
  · rename_i he
    exact absurd (List.cons.inj he).1 hplus
  · rfl

theorem integer?_ofInt (z : Int) : integer? (ofInt z) = some z := by
  unfold ofInt
  split
  · have hz : -(z.natAbs : Int) = z := by omega
    rw [integer?, natural?_toDigits]
    exact congrArg some hz
  · obtain ⟨c, cs, hcs⟩ := List.exists_cons_of_ne_nil (Nat.toDigits_ne_nil (n := z.natAbs) (b := 10))
    have hc : c.isDigit = true :=
      Nat.isDigit_of_mem_toDigits (by omega) (by omega) (hcs ▸ List.mem_cons_self)
    have hz : (z.natAbs : Int) = z := by omega
    rw [hcs, integer?_of_isDigit hc, ← hcs, natural?_toDigits, Option.map_some,
      Int.ofNat_eq_natCast, hz]

end Numeral

theorem trimChars_of_forall {cs : List Char} (h : ∀ c ∈ cs, isBlank c = false) :
    trimChars cs = cs := by
  have hdrop {l : List Char} (hl : ∀ c ∈ l, isBlank c = false) : l.dropWhile isBlank = l := by
    cases l with
    | nil => rfl
    | cons c l => simp [hl c List.mem_cons_self]
  rw [trimChars, hdrop h, hdrop (by simpa using h), List.reverse_reverse]

theorem isBlank_of_isDigit {c : Char} (h : c.isDigit = true) : isBlank c = false := by
  simp only [Char.isDigit, Bool.and_eq_true, decide_eq_true_eq] at h
  have h1 : 48 ≤ c.toNat := h.1
  have h2 : c.toNat ≤ 57 := h.2
  simp only [isBlank, Bool.or_eq_false_iff, Bool.and_eq_false_iff, decide_eq_false_iff_not,
    beq_eq_false_iff_ne]
  omega

namespace Coordinate

theorem readHalf?_ofInt (a : AxisValue) : readHalf? (Numeral.ofInt a.val) = some a := by
  have hblank : ∀ c ∈ Numeral.ofInt a.val, isBlank c = false := by
    intro c hc
    rcases Numeral.eq_minus_or_isDigit_of_mem hc with rfl | hd
    · decide
    · exact isBlank_of_isDigit hd
  rw [readHalf?, trimChars_of_forall hblank, Numeral.integer?_ofInt, Option.bind_some,
    AxisValue.ofInt?_val]

theorem coordinate_key (c : Coordinate) : c.key.coordinate = .ok c := by
  have hcomma : ',' ∉ Numeral.ofInt c.x.val := Numeral.comma_not_mem_ofInt c.x.val
  have hread : read? (Numeral.ofInt c.x.val ++ ',' :: Numeral.ofInt c.y.val) = some c := by
    simp [read?, splitFirst_append _ hcomma, readHalf?_ofInt]
  simp only [StateKey.coordinate, key, ofText, text, String.toList_ofList, hread]

theorem key_injective : Function.Injective key := by
  intro c c' h
  have hh : (Except.ok c : Except InvalidKey Coordinate) = .ok c' := by
    rw [← coordinate_key c, h, coordinate_key c']
  exact Except.ok.inj hh

end Coordinate

end AutomatonSketch
