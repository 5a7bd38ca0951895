import AutomatonSketch.Proofs.AlphabetText
import AutomatonSketch.Proofs.Keys
import Mathlib.Data.List.Induction

/-! Which texts name a coordinate. Two numerals with a comma between them do, in any spelling, blanks
around them included; of all the spellings of a coordinate the plain one is its key. -/

namespace AutomatonSketch

namespace Numeral

/-- A row of decimal digits, and the number it stands for. -/
inductive Digits : List Char → Nat → Prop
  | one {d : Nat} (hd : d < 10) : Digits [d.digitChar] d
  | more {cs : List Char} {n d : Nat} (hcs : Digits cs n) (hd : d < 10) :
      Digits (cs ++ [d.digitChar]) (10 * n + d)

/-- Digits after at most one sign, and the number they stand for. -/
inductive Signed : List Char → Int → Prop
  | bare {cs : List Char} {n : Nat} (h : Digits cs n) : Signed cs n
  | plus {cs : List Char} {n : Nat} (h : Digits cs n) : Signed ('+' :: cs) n
  | minus {cs : List Char} {n : Nat} (h : Digits cs n) : Signed ('-' :: cs) (-n)

/-- No zero stands in front of other digits. -/
def NoLeadingZero (cs : List Char) : Prop := ∀ c rest, cs ≠ '0' :: c :: rest

theorem exists_digitChar {c : Char} (h : c.isDigit = true) : ∃ d < 10, d.digitChar = c := by
  simp only [Char.isDigit, Bool.and_eq_true, decide_eq_true_eq] at h
  have hlow : 48 ≤ c.toNat := h.1
  have hhigh : c.toNat ≤ 57 := h.2
  have hd : c.toNat - 48 < 10 := by omega
  refine ⟨c.toNat - 48, hd, Char.toNat_inj.mp ?_⟩
  rw [Nat.toNat_digitChar_of_lt_ten hd]
  omega

namespace Digits

variable {cs : List Char} {n : Nat}

theorem isDigit (h : Digits cs n) : ∀ c ∈ cs, c.isDigit = true := by
  induction h with
  | one hd => simpa using hd
  | more _ hd ih =>
    intro c hc
    rcases List.mem_append.mp hc with hc | hc
    · exact ih c hc
    · rw [List.mem_singleton.mp hc]
      simpa using hd

theorem ne_nil (h : Digits cs n) : cs ≠ [] := by
  cases h <;> simp

theorem ofDigitChars (h : Digits cs n) : Nat.ofDigitChars 10 cs 0 = n := by
  induction h with
  | one hd => simp [Nat.ofDigitChars_cons, Nat.toNat_digitChar_sub_48_of_lt_ten hd]
  | more _ hd ih =>
    simp [Nat.ofDigitChars_append, ih, Nat.ofDigitChars_cons,
      Nat.toNat_digitChar_sub_48_of_lt_ten hd]

/-- Without leading zeros there is one row of digits for a number. -/
theorem eq_toDigits (h : Digits cs n) (hzero : NoLeadingZero cs) : cs = Nat.toDigits 10 n := by
  induction h with
  | one hd => exact (Nat.toDigits_of_lt_base hd).symm
  | @more cs n d hcs hd ih =>
    have hfront : cs = Nat.toDigits 10 n := by
      refine ih fun c rest heq => ?_
      exact hzero c (rest ++ [d.digitChar]) (by rw [heq]; rfl)
    have hpos : 0 < n := by
      refine Nat.pos_of_ne_zero ?_
      rintro rfl
      exact hzero d.digitChar [] (by rw [hfront]; rfl)
    rw [← Nat.toDigits_append_toDigits (by decide) hpos hd, ← hfront, Nat.toDigits_of_lt_base hd]

end Digits

theorem digits_of_isDigit {cs : List Char} (hne : cs ≠ []) (h : ∀ c ∈ cs, c.isDigit = true) :
    ∃ n, Digits cs n := by
  induction cs using List.reverseRecOn with
  | nil => exact absurd rfl hne
  | append_singleton cs c ih =>
    obtain ⟨d, hd, rfl⟩ := exists_digitChar (h c (by simp))
    by_cases hcs : cs = []
    · subst hcs
      exact ⟨d, .one hd⟩
    · obtain ⟨n, hn⟩ := ih hcs fun c hc => h c (List.mem_append_left _ hc)
      exact ⟨10 * n + d, .more hn hd⟩

theorem natural?_eq_some_iff {cs : List Char} {n : Nat} : natural? cs = some n ↔ Digits cs n := by
  constructor
  · intro h
    unfold natural? at h
    split at h
    · rename_i hdigits
      obtain ⟨m, hm⟩ := digits_of_isDigit hdigits.1 (List.all_eq_true.mp hdigits.2)
      obtain rfl : m = n := hm.ofDigitChars.symm.trans (Option.some.inj h)
      exact hm
    · exact absurd h (by simp)
  · intro h
    rw [natural?, if_pos ⟨h.ne_nil, List.all_eq_true.mpr h.isDigit⟩, h.ofDigitChars]

theorem integer?_minus (cs : List Char) :
    integer? ('-' :: cs) = (natural? cs).map fun n => -(Int.ofNat n) := by
  rw [integer?]
  cases natural? cs <;> rfl

theorem integer?_eq_some_iff {cs : List Char} {z : Int} : integer? cs = some z ↔ Signed cs z := by
  constructor
  · intro h
    unfold integer? at h
    split at h
    · rw [← integer?, integer?_minus] at h
      obtain ⟨n, hn, rfl⟩ := Option.map_eq_some_iff.mp h
      exact .minus (natural?_eq_some_iff.mp hn)
    · obtain ⟨n, hn, rfl⟩ := Option.map_eq_some_iff.mp h
      exact .plus (natural?_eq_some_iff.mp hn)
    · obtain ⟨n, hn, rfl⟩ := Option.map_eq_some_iff.mp h
      exact .bare (natural?_eq_some_iff.mp hn)
  · intro h
    cases h with
    | minus hn => rw [integer?_minus, natural?_eq_some_iff.mpr hn, Option.map_some]; rfl
    | plus hn => rw [integer?, natural?_eq_some_iff.mpr hn, Option.map_some]; rfl
    | bare hn =>
      obtain ⟨c, rest, rfl⟩ := List.exists_cons_of_ne_nil hn.ne_nil
      rw [integer?_of_isDigit (hn.isDigit c List.mem_cons_self), natural?_eq_some_iff.mpr hn,
        Option.map_some]
      rfl

theorem Signed.mem {cs : List Char} {z : Int} (h : Signed cs z) {c : Char} (hc : c ∈ cs) :
    c = '+' ∨ c = '-' ∨ c.isDigit = true := by
  cases h with
  | bare hn => exact .inr (.inr (hn.isDigit c hc))
  | plus hn => exact (List.mem_cons.mp hc).imp_right fun hc => .inr (hn.isDigit c hc)
  | minus hn => exact .inr ((List.mem_cons.mp hc).imp_right fun hc => hn.isDigit c hc)

theorem Signed.not_blank {cs : List Char} {z : Int} (h : Signed cs z) :
    ∀ c ∈ cs, isBlank c = false := by
  intro c hc
  rcases h.mem hc with rfl | rfl | hdigit
  · decide
  · decide
  · exact isBlank_of_isDigit hdigit

theorem Signed.ne_nil {cs : List Char} {z : Int} (h : Signed cs z) : cs ≠ [] := by
  cases h with
  | bare hn => exact hn.ne_nil
  | plus | minus => exact List.cons_ne_nil _ _

/-- A canonical numeral has no plus sign, no leading zeros and no minus sign in front of zero. -/
structure Plain (cs : List Char) : Prop where
  not_plus : '+' ∉ cs
  no_leading_zero : NoLeadingZero cs
  no_leading_zero_minus : ∀ digits, cs = '-' :: digits → NoLeadingZero digits
  not_minus_zero : cs ≠ ['-', '0']

theorem noLeadingZero_toDigits (n : Nat) : NoLeadingZero (Nat.toDigits 10 n) := by
  have hhead : 0 < n → (Nat.toDigits 10 n).head? ≠ some '0' := by
    induction n using Nat.strongRecOn with
    | ind n ih =>
      intro hn
      by_cases hsmall : n < 10
      · rw [Nat.toDigits_of_lt_base hsmall]
        simp only [List.head?_cons, ne_eq, Option.some.injEq, Nat.digitChar_eq_zero]
        omega
      · rw [Nat.toDigits_of_base_le (by decide) (by omega),
          List.head?_append_of_ne_nil _ Nat.toDigits_ne_nil]
        exact ih (n / 10) (by omega) (by omega)
  intro c rest heq
  rcases Nat.eq_zero_or_pos n with rfl | hn
  · simp at heq
  · exact hhead hn (by rw [heq]; rfl)

theorem plain_ofInt (z : Int) : Plain (ofInt z) := by
  have hminus {n : Nat} : '-' ∉ Nat.toDigits 10 n := fun hc => by
    simpa [Char.isDigit] using Nat.isDigit_of_mem_toDigits (by decide) (by decide) hc
  constructor
  case not_plus =>
    intro hc
    rcases eq_minus_or_isDigit_of_mem hc with h | h <;> simp [Char.isDigit] at h
  case no_leading_zero =>
    unfold ofInt
    split
    · intro c rest heq
      simp at heq
    · exact noLeadingZero_toDigits _
  case no_leading_zero_minus =>
    intro digits heq
    unfold ofInt at heq
    split at heq
    · rw [← (List.cons.inj heq).2]
      exact noLeadingZero_toDigits _
    · exact absurd (heq ▸ List.mem_cons_self) hminus
  case not_minus_zero =>
    intro heq
    have hzero : integer? (ofInt z) = integer? ['-', '0'] := congrArg integer? heq
    rw [integer?_ofInt] at hzero
    obtain rfl : z = 0 := Option.some.inj hzero
    simp [ofInt] at heq

/-- Of all the spellings of a number the plain one is its numeral. -/
theorem Signed.eq_ofInt_iff {cs : List Char} {z : Int} (h : Signed cs z) :
    ofInt z = cs ↔ Plain cs := by
  constructor
  · rintro rfl
    exact plain_ofInt z
  · intro hplain
    cases h with
    | @bare _ n hn =>
      have hnonneg : ¬ (n : Int) < 0 := by omega
      rw [ofInt, if_neg hnonneg, Int.natAbs_natCast, hn.eq_toDigits hplain.no_leading_zero]
    | plus hn => exact absurd List.mem_cons_self hplain.not_plus
    | @minus digits n hn =>
      have hdigits := hn.eq_toDigits (hplain.no_leading_zero_minus digits rfl)
      have hneg : -(n : Int) < 0 := by
        have hne : n ≠ 0 := by
          rintro rfl
          exact hplain.not_minus_zero (by rw [hdigits]; rfl)
        omega
      rw [ofInt, if_pos hneg, Int.natAbs_neg, Int.natAbs_natCast, hdigits]

end Numeral

theorem split_unique {sep : Char} {before after before' after' : List Char}
    (heq : before ++ sep :: after = before' ++ sep :: after') (h : sep ∉ before)
    (h' : sep ∉ before') : before = before' ∧ after = after' := by
  have hsplit := splitFirst_append after h
  rw [heq, splitFirst_append after' h'] at hsplit
  simpa [eq_comm] using hsplit

namespace Coordinate

/-- A numeral with blanks around it, of a value in range. -/
def SpellsHalf (cs : List Char) (a : AxisValue) : Prop :=
  ∃ before numeral after, cs = before ++ numeral ++ after ∧
    (∀ b ∈ before ++ after, isBlank b = true) ∧ Numeral.Signed numeral a.val

/-- Two halves with a comma between them, the first comma of the text. -/
def Spells (cs : List Char) (c : Coordinate) : Prop :=
  ∃ before after, cs = before ++ ',' :: after ∧ ',' ∉ before ∧
    SpellsHalf before c.x ∧ SpellsHalf after c.y

/-- A half is canonical if its numeral is, and no blanks are around it. -/
def CanonicalHalf (cs : List Char) : Prop :=
  (∀ c ∈ cs, isBlank c = false) ∧ Numeral.Plain cs

/-- A spelling without blanks, plus signs, leading zeros and a minus sign in front of zero. -/
def Canonical (cs : List Char) : Prop :=
  ∃ before after, cs = before ++ ',' :: after ∧ ',' ∉ before ∧
    CanonicalHalf before ∧ CanonicalHalf after

theorem readHalf?_eq_some_iff {cs : List Char} {a : AxisValue} :
    readHalf? cs = some a ↔ SpellsHalf cs a := by
  rw [readHalf?, Option.bind_eq_some_iff]
  simp only [Numeral.integer?_eq_some_iff, AxisValue.ofInt?_eq_some_iff]
  constructor
  · rintro ⟨z, hz, rfl⟩
    obtain ⟨before, after, hcs, hblank⟩ := exists_blanks_around cs
    exact ⟨before, trimChars cs, after, hcs, hblank, hz⟩
  · rintro ⟨before, numeral, after, rfl, hblank, hnumeral⟩
    rw [trimChars_around hnumeral.ne_nil hnumeral.not_blank hblank]
    exact ⟨a.val, hnumeral, rfl⟩

theorem read?_eq_some_iff {cs : List Char} {c : Coordinate} : read? cs = some c ↔ Spells cs c := by
  constructor
  · intro h
    simp only [read?, Option.bind_eq_bind, Option.bind_eq_some_iff, Option.pure_def,
      Option.some.injEq] at h
    obtain ⟨⟨before, after⟩, hsplit, x, hx, y, hy, rfl⟩ := h
    obtain ⟨hcs, hcomma⟩ := splitFirst_eq_some hsplit
    exact ⟨before, after, hcs, hcomma, readHalf?_eq_some_iff.mp hx, readHalf?_eq_some_iff.mp hy⟩
  · rintro ⟨before, after, rfl, hcomma, hx, hy⟩
    simp [read?, splitFirst_append after hcomma, readHalf?_eq_some_iff.mpr hx,
      readHalf?_eq_some_iff.mpr hy]

theorem SpellsHalf.eq_ofInt_iff {cs : List Char} {a : AxisValue} (h : SpellsHalf cs a) :
    Numeral.ofInt a.val = cs ↔ CanonicalHalf cs := by
  constructor
  · rintro rfl
    have hnumeral := Numeral.integer?_eq_some_iff.mp (Numeral.integer?_ofInt a.val)
    exact ⟨hnumeral.not_blank, Numeral.plain_ofInt a.val⟩
  · rintro ⟨hkept, hplain⟩
    obtain ⟨before, numeral, after, rfl, hblank, hnumeral⟩ := h
    have hnone : before ++ after = [] := by
      refine List.eq_nil_iff_forall_not_mem.mpr fun b hb => ?_
      have hmem : b ∈ before ++ numeral ++ after := by
        rcases List.mem_append.mp hb with hb | hb <;> simp [hb]
      exact absurd (hblank b hb) (by simp [hkept b hmem])
    obtain ⟨rfl, rfl⟩ := List.append_eq_nil_iff.mp hnone
    rw [List.nil_append, List.append_nil] at hplain ⊢
    exact hnumeral.eq_ofInt_iff.mpr hplain

theorem Spells.text_eq_iff {s : String} {c : Coordinate} (h : Spells s.toList c) :
    c.key.text = s ↔ Canonical s.toList := by
  obtain ⟨before, after, hs, hcomma, hx, hy⟩ := h
  have htext : c.key.text = s ↔
      Numeral.ofInt c.x.val ++ ',' :: Numeral.ofInt c.y.val = before ++ ',' :: after := by
    rw [← hs, ← String.toList_inj, key, text, String.toList_ofList]
  rw [htext]
  constructor
  · intro heq
    obtain ⟨hbefore, hafter⟩ := split_unique heq (Numeral.comma_not_mem_ofInt _) hcomma
    exact ⟨before, after, hs, hcomma, hx.eq_ofInt_iff.mp hbefore, hy.eq_ofInt_iff.mp hafter⟩
  · rintro ⟨before', after', hs', hcomma', hfirst, hsecond⟩
    obtain ⟨rfl, rfl⟩ := split_unique (hs.symm.trans hs') hcomma hcomma'
    rw [hx.eq_ofInt_iff.mpr hfirst, hy.eq_ofInt_iff.mpr hsecond]

/-- A text is read as the coordinate it spells, any other is refused as it stands; and it is the key
of that coordinate exactly if the spelling is canonical. -/
theorem ofText_grammar (s : String) :
    (∀ c, ofText s = .ok c ↔ Spells s.toList c) ∧
      (∀ e, ofText s = .error e ↔ e = ⟨s⟩ ∧ ∀ c, ¬ Spells s.toList c) ∧
      ∀ c, ofText s = .ok c → (c.key.text = s ↔ Canonical s.toList) := by
  have hok (c : Coordinate) : ofText s = .ok c ↔ Spells s.toList c := by
    rw [← read?_eq_some_iff, ofText]
    cases read? s.toList <;> simp
  refine ⟨hok, ?_, fun c hc => ((hok c).mp hc).text_eq_iff⟩
  intro e
  simp only [← read?_eq_some_iff, ofText]
  cases read? s.toList with
  | none => simp [eq_comm]
  | some c => simp

example : ofText " +007 ,-0\n" = .ok (.of 7 0) := by decide +kernel

example : ofText "-2147483648,2147483648" = .error ⟨"-2147483648,2147483648"⟩ := by decide +kernel

end Coordinate

end AutomatonSketch
