import AutomatonSketch.Json.Token
import AutomatonSketch.Json.Writer
import AutomatonSketch.Proofs.Keys

/-! The text of a number is one word, which reads back as the number; a decimal number without
decimal places gains one. -/

namespace AutomatonSketch

namespace Number

/-- The number that the text of a number is read as. -/
def asRead : Number → Number
  | .decimal negative coefficient (.ofNat 0) =>
    if coefficient = 0 ∧ negative then .decimal true 0 0
    else .decimal negative (10 * coefficient) (-1)
  | n => n

/-- Digits that can stand before the point of a number. -/
structure Integral (ds : List Char) : Prop where
  digits : ∀ c ∈ ds, c.isDigit = true
  ne_nil : ds ≠ []
  leading : ∀ cs, ds = '0' :: cs → cs = []

theorem isDigit_of_mem_toDigits {n : Nat} {c : Char} (h : c ∈ Nat.toDigits 10 n) :
    c.isDigit = true := Nat.isDigit_of_mem_toDigits (by omega) (by omega) h

theorem toDigits_leading (n : Nat) : ∀ cs, Nat.toDigits 10 n = '0' :: cs → cs = [] := by
  induction n using Nat.strongRecOn with
  | _ n ih =>
    intro cs h
    rw [Nat.toDigits_eq_if (by omega)] at h
    split at h
    · exact (List.cons.inj h).2.symm
    · rename_i hn
      -- The last digit is not the first one, and what comes before it stands for less.
      have hne : Nat.toDigits 10 (n / 10) ≠ [] := Nat.toDigits_ne_nil
      obtain ⟨d, ds, hds⟩ := List.exists_cons_of_ne_nil hne
      rw [hds, List.cons_append] at h
      obtain ⟨rfl, -⟩ := List.cons.inj h
      obtain rfl := ih (n / 10) (by omega) ds hds
      have hzero : n / 10 = 0 := by
        have hread := Nat.ofDigitChars_ten_toDigits (n := n / 10)
        rw [hds] at hread
        simpa [Nat.ofDigitChars_cons] using hread.symm
      omega

theorem Integral.toDigits (n : Nat) : Integral (Nat.toDigits 10 n) :=
  ⟨fun _ => isDigit_of_mem_toDigits, Nat.toDigits_ne_nil, toDigits_leading n⟩

theorem Integral.zero : Integral ['0'] := ⟨by simp, by simp, by simp⟩

theorem Integral.take {ds : List Char} (h : Integral ds) {k : Nat} (hk : 0 < k) :
    Integral (ds.take k) := by
  obtain ⟨d, rest, rfl⟩ := List.exists_cons_of_ne_nil h.ne_nil
  obtain ⟨k, rfl⟩ := Nat.exists_eq_add_of_lt hk
  rw [Nat.zero_add, List.take_succ_cons]
  refine ⟨fun c hc => h.digits c ?_, List.cons_ne_nil _ _, ?_⟩
  · exact List.mem_of_mem_take (i := k + 1) hc
  · intro cs hcs
    obtain ⟨rfl, rfl⟩ := List.cons.inj hcs
    simp [h.leading rest rfl]

theorem digitsFirst_append {ds rest : List Char} (hd : ∀ c ∈ ds, c.isDigit = true)
    (hr : ∀ c ∈ rest.head?, c.isDigit = false) : digitsFirst (ds ++ rest) = (ds, rest) := by
  have hstop : rest.takeWhile Char.isDigit = [] ∧ rest.dropWhile Char.isDigit = rest := by
    cases rest with
    | nil => exact ⟨rfl, rfl⟩
    | cons c cs =>
      have hc : c.isDigit = false := hr c rfl
      simp [hc]
  rw [digitsFirst, List.takeWhile_append_of_pos hd, List.dropWhile_append_of_pos hd, hstop.1,
    hstop.2, List.append_nil]

section Reading

variable {integral rest : List Char} (negative : Bool)

theorem unsigned?_append (h : Integral integral) (hr : ∀ c ∈ rest.head?, c.isDigit = false) :
    unsigned? negative (integral ++ rest) = tail? negative integral rest := by
  rw [unsigned?, digitsFirst_append h.digits hr]
  split
  · rename_i he
    exact absurd (congrArg Prod.fst he) h.ne_nil
  · rename_i he
    exact absurd (h.leading _ (congrArg Prod.fst he)) (by simp)
  · rename_i he
    obtain ⟨rfl, rfl⟩ := Prod.mk.inj he
    rfl

theorem ofChars?_signed (h : Integral integral) (hr : ∀ c ∈ rest.head?, c.isDigit = false) :
    ofChars? ((if negative then ['-'] else []) ++ (integral ++ rest)) =
      tail? negative integral rest := by
  have hread := unsigned?_append negative h hr
  cases negative with
  | true => exact hread
  | false =>
    obtain ⟨c, cs, hcs⟩ := List.exists_cons_of_ne_nil h.ne_nil
    have hdigit : c.isDigit = true := h.digits c (hcs ▸ List.mem_cons_self)
    have hminus : c ≠ '-' := by
      rintro rfl
      simp [Char.isDigit] at hdigit
    rw [← hread]
    unfold ofChars?
    split
    · rename_i hm
      simp [hcs, hminus] at hm
    · simp

end Reading

theorem ofChars?_ofInt (z : Int) : ofChars? (Numeral.ofInt z) = some (.integer z) := by
  have hread (negative : Bool) : ofChars? ((if negative then ['-'] else []) ++
      (Nat.toDigits 10 z.natAbs ++ [])) = tail? negative (Nat.toDigits 10 z.natAbs) [] :=
    ofChars?_signed negative (.toDigits z.natAbs) (by simp)
  simp only [List.append_nil] at hread
  unfold Numeral.ofInt
  split
  · have hz : z.natAbs ≠ 0 := by omega
    have hneg : -(z.natAbs : Int) = z := by omega
    have htail : tail? true (Nat.toDigits 10 z.natAbs) [] = some (.integer z) := by
      simp only [tail?, Nat.ofDigitChars_ten_toDigits, hz, hneg, if_true, if_false]
    exact (hread true).trans htail
  · have hpos : (z.natAbs : Int) = z := by omega
    simpa [tail?, hpos] using hread false

/-- A decimal number with its point before the last digits. -/
theorem ofChars?_places (negative : Bool) {integral : List Char} (h : Integral integral)
    (fraction : List Char) (hd : ∀ c ∈ fraction, c.isDigit = true) (hne : fraction ≠ []) :
    ofChars? ((if negative then ['-'] else []) ++ (integral ++ '.' :: fraction)) =
      some (.decimal negative (Nat.ofDigitChars 10 (integral ++ fraction) 0)
        (-(fraction.length : Int))) := by
  have hpoint : ∀ c ∈ ('.' :: fraction).head?, c.isDigit = false := by simp [Char.isDigit]
  have hfirst : digitsFirst (fraction ++ []) = (fraction, []) := digitsFirst_append hd (by simp)
  rw [List.append_nil] at hfirst
  have hsome : fraction.isEmpty = false := List.isEmpty_eq_false_iff.mpr hne
  rw [ofChars?_signed negative h hpoint, tail?, hfirst]
  simp [hsome]

theorem ofChars?_exponent (negative : Bool) (coefficient e : Nat) :
    ofChars? ((if negative then ['-'] else []) ++
      (Nat.toDigits 10 coefficient ++ 'e' :: Nat.toDigits 10 e)) =
        some (.decimal negative coefficient e) := by
  have hmark : ∀ c ∈ ('e' :: Nat.toDigits 10 e).head?, c.isDigit = false := by simp [Char.isDigit]
  have hexponent : exponent? (Nat.toDigits 10 e) = some (e : Int) := Numeral.integer?_ofInt e
  rw [ofChars?_signed negative (.toDigits coefficient) hmark]
  simp [tail?, hexponent]

theorem padded_split (coefficient e : Nat) :
    let digits := Nat.toDigits 10 coefficient
    let padded := List.replicate (e + 1 + 1 - digits.length) '0' ++ digits
    Integral (padded.take (padded.length - (e + 1))) ∧
      (padded.drop (padded.length - (e + 1))).length = e + 1 ∧
      (∀ c ∈ padded, c.isDigit = true) ∧ Nat.ofDigitChars 10 padded 0 = coefficient := by
  intro digits padded
  have hdigits : Integral digits := .toDigits coefficient
  have hlength : padded.length = (e + 1 + 1 - digits.length) + digits.length := by
    simp [padded]
  have hall : ∀ c ∈ padded, c.isDigit = true := by
    intro c hc
    rcases List.mem_append.mp hc with hc | hc
    · rw [List.eq_of_mem_replicate hc]
      rfl
    · exact hdigits.digits c hc
  have hvalue : Nat.ofDigitChars 10 padded 0 = coefficient := by
    rw [Nat.ofDigitChars_append, Nat.ofDigitChars_replicate_zero, Nat.mul_zero]
    exact Nat.ofDigitChars_ten_toDigits
  refine ⟨?_, ?_, hall, hvalue⟩
  · by_cases hlong : e + 1 < digits.length
    · -- No zeros are put in front, so the digits begin as they do in full.
      have hnone : e + 1 + 1 - digits.length = 0 := by omega
      have hpadded : padded = digits := by simp [padded, hnone]
      rw [hpadded]
      exact hdigits.take (by omega)
    · have hone : padded.length - (e + 1) = 1 := by omega
      obtain ⟨k, hk⟩ : ∃ k, e + 1 + 1 - digits.length = k + 1 := ⟨e + 1 - digits.length, by omega⟩
      have hfirst : padded = '0' :: (List.replicate k '0' ++ digits) := by
        simp only [padded, hk, List.replicate_succ, List.cons_append]
      rw [hone, hfirst, List.take_succ_cons, List.take_zero]
      exact .zero
  · rw [List.length_drop]
    omega

theorem ofChars?_numberChars (n : Number) : ofChars? (Json.numberChars n) = some n.asRead := by
  cases n with
  | integer z => exact ofChars?_ofInt z
  | decimal negative coefficient exponent =>
    match exponent with
    | .ofNat 0 =>
      show ofChars? (if coefficient = 0 ∧ negative then ['-', '0'] else
          (if negative then ['-'] else []) ++ Nat.toDigits 10 coefficient ++ ['.', '0']) =
        some (if coefficient = 0 ∧ negative then .decimal true 0 0
          else .decimal negative (10 * coefficient) (-1))
      by_cases hzero : coefficient = 0 ∧ negative
      · rw [if_pos hzero, if_pos hzero]
        rfl
      · have hread := ofChars?_places negative (.toDigits coefficient) ['0'] (by simp)
          (by simp)
        have hvalue : Nat.ofDigitChars 10 (Nat.toDigits 10 coefficient ++ ['0']) 0 =
            10 * coefficient := by
          rw [Nat.ofDigitChars_append, Nat.ofDigitChars_ten_toDigits]
          simp [Nat.ofDigitChars_cons]
        rw [if_neg hzero, if_neg hzero, List.append_assoc]
        rwa [hvalue] at hread
    | .ofNat (e + 1) =>
      have hread := ofChars?_exponent negative coefficient (e + 1)
      rw [← List.append_assoc] at hread
      exact hread
    | .negSucc e =>
      obtain ⟨hintegral, hlength, hall, hvalue⟩ := padded_split coefficient e
      have hread := ofChars?_places negative hintegral _
        (fun c hc => hall c (List.mem_of_mem_drop hc))
        (List.ne_nil_of_length_pos (by rw [hlength]; exact Nat.succ_pos e))
      rw [List.take_append_drop, hlength, hvalue, ← List.append_assoc] at hread
      exact hread

theorem isWordChar_of_isDigit {c : Char} (h : c.isDigit = true) :
    Json.Token.isWordChar c = true := by
  simp [Json.Token.isWordChar, Char.isAlphanum, h]

theorem isWordChar_of_mem_numberChars {n : Number} {c : Char} (h : c ∈ Json.numberChars n) :
    Json.Token.isWordChar c = true := by
  have hdigits {k : Nat} (hc : c ∈ Nat.toDigits 10 k) : Json.Token.isWordChar c = true :=
    isWordChar_of_isDigit (isDigit_of_mem_toDigits hc)
  have hsign {negative : Bool} (hc : c ∈ if negative then ['-'] else []) :
      Json.Token.isWordChar c = true := by
    cases negative with
    | true => exact List.mem_singleton.mp hc ▸ rfl
    | false => exact absurd hc List.not_mem_nil
  cases n with
  | integer z =>
    rcases Numeral.eq_minus_or_isDigit_of_mem h with rfl | hc
    · rfl
    · exact isWordChar_of_isDigit hc
  | decimal negative coefficient exponent =>
    match exponent with
    | .ofNat 0 =>
      change c ∈ if coefficient = 0 ∧ negative then ['-', '0'] else
        (if negative then ['-'] else []) ++ Nat.toDigits 10 coefficient ++ ['.', '0'] at h
      split at h
      · have hsigned : ['-', '0'].all Json.Token.isWordChar = true := by decide
        exact List.all_eq_true.mp hsigned c h
      · have hpoint : ['.', '0'].all Json.Token.isWordChar = true := by decide
        rcases List.mem_append.mp h with h | h
        · exact (List.mem_append.mp h).elim hsign hdigits
        · exact List.all_eq_true.mp hpoint c h
    | .ofNat (e + 1) =>
      rcases List.mem_append.mp h with h | h
      · exact (List.mem_append.mp h).elim hsign hdigits
      · rcases List.mem_cons.mp h with rfl | h
        · rfl
        · exact hdigits h
    | .negSucc e =>
      obtain ⟨-, -, hall, -⟩ := padded_split coefficient e
      rcases List.mem_append.mp h with h | h
      · refine (List.mem_append.mp h).elim hsign fun h => ?_
        exact isWordChar_of_isDigit (hall c (List.mem_of_mem_take h))
      · rcases List.mem_cons.mp h with rfl | h
        · rfl
        · exact isWordChar_of_isDigit (hall c (List.mem_of_mem_drop h))

theorem ofWord?_numberChars (n : Number) :
    Json.Token.ofWord? (Json.numberChars n) = some (.number n.asRead) := by
  have hread := ofChars?_numberChars n
  have hother (word : List Char) (hword : ofChars? word = none) : Json.numberChars n ≠ word := by
    intro hn
    rw [hn, hword] at hread
    exact absurd hread (by simp)
  have hnull := hother ['n', 'u', 'l', 'l'] (by decide)
  have htrue := hother ['t', 'r', 'u', 'e'] (by decide)
  have hfalse := hother ['f', 'a', 'l', 's', 'e'] (by decide)
  simp only [Json.Token.ofWord?, hnull, htrue, hfalse, if_false, hread, Option.map_some]

end Number

end AutomatonSketch
