import AutomatonSketch.Proofs.Alphabet
import AutomatonSketch.Text.Split

/-! Alphabets as text. What stands between commas is read, and what is written is read back; only a
comma among the characters is taken for a separator, and lost. -/

namespace AutomatonSketch

theorem splitAll_eq_splitOn (sep : Char) (cs : List Char) : splitAll sep cs = cs.splitOn sep := by
  induction cs with
  | nil => simp [splitAll]
  | cons c cs ih =>
    have hne : cs.splitOn sep ≠ [] := List.splitOn_ne_nil sep cs
    rw [splitAll, ih, List.splitOn_cons_eq_if_modifyHead]
    by_cases hc : c = sep
    · simp [hc]
    · cases hparts : cs.splitOn sep with
      | nil => exact absurd hparts hne
      | cons part parts => simp [hc]

theorem not_mem_of_mem_splitAll {sep : Char} {cs part : List Char} (h : part ∈ splitAll sep cs) :
    sep ∉ part := by
  induction cs generalizing part with
  | nil =>
    obtain rfl : part = [] := by simpa [splitAll] using h
    exact List.not_mem_nil
  | cons c cs ih =>
    by_cases hc : c = sep
    · rw [splitAll, if_pos hc] at h
      rcases List.mem_cons.mp h with rfl | h
      · simp
      · exact ih h
    · rw [splitAll, if_neg hc] at h
      cases hparts : splitAll sep cs with
      | nil =>
        obtain rfl : part = [c] := by simpa [hparts] using h
        simpa using Ne.symm hc
      | cons first parts =>
        rw [hparts] at h ih
        rcases List.mem_cons.mp h with rfl | h
        · simpa [Ne.symm hc] using ih List.mem_cons_self
        · exact ih (List.mem_cons_of_mem _ h)

/-- Nothing but blanks is cut off. -/
theorem exists_blanks_around (cs : List Char) :
    ∃ before after, cs = before ++ trimChars cs ++ after ∧
      ∀ b ∈ before ++ after, isBlank b = true := by
  have hfront := List.takeWhile_append_dropWhile (p := isBlank) (l := cs)
  have hback := List.takeWhile_append_dropWhile (p := isBlank) (l := (cs.dropWhile isBlank).reverse)
  have hrest : cs.dropWhile isBlank = trimChars cs ++
      ((cs.dropWhile isBlank).reverse.takeWhile isBlank).reverse := by
    rw [trimChars, ← List.reverse_append, hback, List.reverse_reverse]
  refine ⟨cs.takeWhile isBlank, ((cs.dropWhile isBlank).reverse.takeWhile isBlank).reverse, ?_, ?_⟩
  · rw [List.append_assoc, ← hrest, hfront]
  · intro b hb
    rcases List.mem_append.mp hb with hb | hb
    · exact List.all_eq_true.mp List.all_takeWhile b hb
    · exact List.all_eq_true.mp List.all_takeWhile b (List.mem_reverse.mp hb)

theorem trimChars_around {before cs after : List Char} (hne : cs ≠ [])
    (hkept : ∀ c ∈ cs, isBlank c = false)
    (hblank : ∀ b ∈ before ++ after, isBlank b = true) :
    trimChars (before ++ cs ++ after) = cs := by
  have hbefore : ∀ b ∈ before, isBlank b = true := fun b hb => hblank b (List.mem_append_left _ hb)
  have hafter : ∀ b ∈ after.reverse, isBlank b = true := fun b hb =>
    hblank b (List.mem_append_right _ (List.mem_reverse.mp hb))
  have hstop {l m : List Char} (hl : l ≠ []) (h : ∀ c ∈ l, isBlank c = false) :
      (l ++ m).dropWhile isBlank = l ++ m := by
    obtain ⟨c, l, rfl⟩ := List.exists_cons_of_ne_nil hl
    simp [h c List.mem_cons_self]
  have hreverse : cs.reverse.dropWhile isBlank = cs.reverse := by
    simpa using hstop (m := []) (List.reverse_ne_nil_iff.mpr hne) (by simpa using hkept)
  rw [trimChars, List.append_assoc, List.dropWhile_append_of_pos hbefore, hstop hne hkept,
    List.reverse_append, List.dropWhile_append_of_pos hafter, hreverse, List.reverse_reverse]

namespace Alphabet

/-- The entries of a text: what stands between its commas. -/
structure Entries (text : List Char) (entries : List (List Char)) : Prop where
  ne_nil : entries ≠ []
  comma : ∀ entry ∈ entries, ',' ∉ entry
  join : [','].intercalate entries = text

theorem entries_iff {text : List Char} {entries : List (List Char)} :
    Entries text entries ↔ entries = splitAll ',' text := by
  constructor
  · intro h
    rw [splitAll_eq_splitOn, ← h.join, List.splitOn_intercalate ',' h.comma h.ne_nil]
  · rintro rfl
    have hne : splitAll ',' text ≠ [] := by
      rw [splitAll_eq_splitOn]
      exact List.splitOn_ne_nil ',' text
    have hjoin : [','].intercalate (splitAll ',' text) = text := by
      rw [splitAll_eq_splitOn, List.intercalate_splitOn]
    exact ⟨hne, fun entry => not_mem_of_mem_splitAll, hjoin⟩

/-- An entry that is a character with nothing but blanks around it. -/
structure Stands (c : Char) (entry : List Char) : Prop where
  not_blank : isBlank c = false
  around : ∃ before after, entry = before ++ c :: after ∧
    ∀ b ∈ before ++ after, isBlank b = true

/-- One character stands in an entry, and no entry before that is the other character. -/
def AppearsBefore (entries : List (List Char)) (a b : Char) : Prop :=
  ∃ before entry after, entries = before ++ entry :: after ∧ Stands a entry ∧
    ∀ earlier ∈ before, ¬ Stands b earlier

/-- The characters that are entries, each once, in the order in which they appear first. -/
structure Collects (entries : List (List Char)) (cs : List Char) : Prop where
  nodup : cs.Nodup
  mem : ∀ c, c ∈ cs ↔ ∃ entry ∈ entries, Stands c entry
  order : cs.Pairwise (AppearsBefore entries)

def letter? (entry : List Char) : Option Char := character? (String.ofList entry)

/-- The characters that are entries of a text, as often as they occur. -/
def letters (text : List Char) : List Char := (splitAll ',' text).filterMap letter?

theorem sanitize_commaParts (s : String) :
    sanitize (commaParts s) = (keepFirst (letters s.toList)).map String.singleton := by
  rw [sanitize, commaParts, List.filterMap_map]
  rfl

theorem trimChars_eq_singleton_iff {entry : List Char} {c : Char} :
    trimChars entry = [c] ↔ Stands c entry := by
  constructor
  · intro h
    obtain ⟨before, after, hentry, hblank⟩ := exists_blanks_around entry
    rw [h, List.append_assoc, List.singleton_append] at hentry
    exact ⟨isBlank_of_trimChars h, before, after, hentry, hblank⟩
  · intro h
    obtain ⟨before, after, rfl, hblank⟩ := h.around
    have htrim := trimChars_around (List.cons_ne_nil c []) (by simpa using h.not_blank) hblank
    simpa using htrim

theorem letter?_eq_some_iff {entry : List Char} {c : Char} :
    letter? entry = some c ↔ Stands c entry := by
  rw [← trimChars_eq_singleton_iff, letter?, character?, String.toList_ofList]
  constructor
  · intro h
    split at h
    · rename_i c' hc'
      rw [hc', Option.some.inj h]
    · exact absurd h (by simp)
  · intro h
    rw [h]

theorem AppearsBefore.cons {first : List Char} {entries : List (List Char)} {a b : Char}
    (h : AppearsBefore entries a b) (hb : letter? first ≠ some b) :
    AppearsBefore (first :: entries) a b := by
  obtain ⟨before, entry, after, rfl, ha, hearlier⟩ := h
  have hfirst : ¬ Stands b first := fun hstands => hb (letter?_eq_some_iff.mpr hstands)
  exact ⟨first :: before, entry, after, rfl, ha, List.forall_mem_cons.mpr ⟨hfirst, hearlier⟩⟩

theorem pairwise_appearsBefore (entries : List (List Char)) :
    (keepFirst (entries.filterMap letter?)).Pairwise (AppearsBefore entries) := by
  induction entries with
  | nil => exact .nil
  | cons first entries ih =>
    cases hfirst : letter? first with
    | none =>
      rw [List.filterMap_cons_none hfirst]
      exact ih.imp fun h => h.cons (by simp [hfirst])
    | some c =>
      rw [List.filterMap_cons_some hfirst, keepFirst]
      refine List.pairwise_cons.mpr ⟨?_, ?_⟩
      · intro b _
        exact ⟨[], first, entries, rfl, letter?_eq_some_iff.mp hfirst, by simp⟩
      · rw [List.pairwise_filter]
        refine ih.imp fun {a b} h _ hbc => h.cons ?_
        have hne : b ≠ c := by simpa using hbc
        simpa [hfirst] using hne.symm

theorem collects_keepFirst (entries : List (List Char)) :
    Collects entries (keepFirst (entries.filterMap letter?)) := by
  refine ⟨nodup_keepFirst _, ?_, pairwise_appearsBefore _⟩
  intro c
  simp only [mem_keepFirst, List.mem_filterMap, letter?_eq_some_iff]

theorem collects_letters (text : List Char) :
    Collects (splitAll ',' text) (keepFirst (letters text)) :=
  collects_keepFirst (splitAll ',' text)

theorem Stands.unique {a b : Char} {entry : List Char} (h : Stands a entry)
    (h' : Stands b entry) : a = b :=
  Option.some.inj ((letter?_eq_some_iff.mpr h).symm.trans (letter?_eq_some_iff.mpr h'))

theorem AppearsBefore.antisymm {entries : List (List Char)} {a b : Char}
    (h : AppearsBefore entries a b) (h' : AppearsBefore entries b a) : a = b := by
  obtain ⟨before, entry, after, rfl, ha, hb⟩ := h
  obtain ⟨before', entry', after', heq, hb', ha'⟩ := h'
  rcases List.append_eq_append_iff.mp heq with ⟨between, rfl, hrest⟩ | ⟨between, rfl, hrest⟩
  · cases between with
    | nil =>
      obtain rfl : entry = entry' := (List.cons.inj hrest).1
      exact ha.unique hb'
    | cons first between =>
      obtain rfl : entry = first := (List.cons.inj hrest).1
      exact absurd ha (ha' entry (by simp))
  · cases between with
    | nil =>
      obtain rfl : entry' = entry := (List.cons.inj hrest).1
      exact ha.unique hb'
    | cons first between =>
      obtain rfl : entry' = first := (List.cons.inj hrest).1
      exact absurd hb' (hb entry' (by simp))

theorem Collects.unique {entries : List (List Char)} {cs cs' : List Char}
    (h : Collects entries cs) (h' : Collects entries cs') : cs = cs' := by
  have hperm : cs.Perm cs' :=
    (List.perm_ext_iff_of_nodup h.nodup h'.nodup).mpr fun c => (h.mem c).trans (h'.mem c).symm
  exact hperm.eq_of_pairwise (fun _ _ _ _ hab hba => hab.antisymm hba) h.order h'.order

theorem not_mem_letters_comma (text : List Char) : ',' ∉ letters text := by
  intro h
  obtain ⟨entry, hentry, hletter⟩ := List.mem_filterMap.mp h
  obtain ⟨before, after, rfl, _⟩ := (letter?_eq_some_iff.mp hletter).around
  exact not_mem_of_mem_splitAll hentry (by simp)

theorem letters_append (text later : List Char) :
    letters (text ++ ',' :: later) = letters text ++ letters later := by
  simp only [letters, splitAll_eq_splitOn, List.splitOn_append_cons_self, List.filterMap_append]

theorem letters_cons_of_isBlank {b : Char} (hb : isBlank b = true) (text : List Char) :
    letters (b :: text) = letters text := by
  have hcomma : b ≠ ',' := by
    rintro rfl
    exact absurd hb (by decide)
  have hskip (entry : List Char) : letter? (b :: entry) = letter? entry := by
    simp [letter?, character?, trimChars, hb]
  unfold letters
  rw [splitAll, if_neg hcomma]
  cases splitAll ',' text with
  | nil => rw [List.filterMap_cons_none (hskip [])]
  | cons entry entries => simp only [List.filterMap_cons, hskip]

theorem letters_singleton {c : Char} (hc : isBlank c = false) :
    letters [c] = [c].filter (· ≠ ',') := by
  by_cases hcomma : c = ','
  · subst hcomma
    decide
  · have hself : letter? [c] = some c := letter?_eq_some_iff.mpr ⟨hc, [], [], rfl, by simp⟩
    simp [letters, splitAll, hcomma, hself]

theorem letters_intercalate {cs : List Char} (h : ∀ c ∈ cs, isBlank c = false) :
    letters ([',', ' '].intercalate (cs.map fun c => [c])) = cs.filter (· ≠ ',') := by
  induction cs with
  | nil => decide
  | cons c cs ih =>
    obtain ⟨hc, hcs⟩ := List.forall_mem_cons.mp h
    cases cs with
    | nil => simpa using letters_singleton hc
    | cons d cs =>
      have hblank : isBlank ' ' = true := by decide
      have hwritten : [',', ' '].intercalate ((c :: d :: cs).map fun c => [c]) =
          [c] ++ ',' :: ' ' :: [',', ' '].intercalate ((d :: cs).map fun c => [c]) := by
        simp [List.intercalate_cons_cons]
      -- The blank behind the separator belongs to the next entry, where it is cut off.
      rw [hwritten, letters_append, letters_cons_of_isBlank hblank, letters_singleton hc, ih hcs,
        ← List.filter_append, List.singleton_append]

/-- A written alphabet is read as that alphabet without the comma. -/
theorem sanitize_fieldText (entries : List String) :
    sanitize (commaParts (fieldText (sanitize entries))) =
      (sanitize entries).filter (· ≠ ",") := by
  have htext (cs : List Char) : (fieldText (cs.map String.singleton)).toList =
      [',', ' '].intercalate (cs.map fun c => [c]) := by
    rw [fieldText, String.toList_intercalate, List.map_map]
    simp [Function.comp_def]
  have hcomma (c : Char) : String.singleton c = "," ↔ c = ',' := String.singleton_inj (d := ',')
  have hnodup := (nodup_keepFirst (entries.filterMap character?)).filter (· ≠ ',')
  rw [sanitize_commaParts, sanitize, htext,
    letters_intercalate fun c hc => isBlank_of_mem_characters hc, keepFirst_of_nodup hnodup,
    List.filter_map]
  simp [Function.comp_def, hcomma]

theorem filter_comma_eq_self_iff {alphabet : List String} :
    alphabet.filter (· ≠ ",") = alphabet ↔ "," ∉ alphabet := by
  rw [List.filter_eq_self]
  constructor
  · intro h hcomma
    simpa using h "," hcomma
  · intro h entry hentry
    simpa using fun heq : entry = "," => h (heq ▸ hentry)

theorem comma_not_mem_sanitize_commaParts (s : String) : "," ∉ sanitize (commaParts s) := by
  rw [sanitize_commaParts]
  intro h
  obtain ⟨c, hc, hcomma⟩ := List.mem_map.mp h
  obtain rfl : c = ',' := String.singleton_inj.mp hcomma
  exact not_mem_letters_comma s.toList (mem_keepFirst.mp hc)

theorem sanitize_fieldText_commaParts (s : String) :
    sanitize (commaParts (fieldText (sanitize (commaParts s)))) = sanitize (commaParts s) := by
  rw [sanitize_fieldText, filter_comma_eq_self_iff]
  exact comma_not_mem_sanitize_commaParts s

end Alphabet

end AutomatonSketch
