import AutomatonSketch.Proofs.Keys
import AutomatonSketch.Workspace.Options
import Mathlib.Data.List.Nodup

/-! Sanitized alphabets: characters that are not blank, none of them twice. Sanitizing one changes
nothing. -/

namespace AutomatonSketch

theorem isBlank_of_trimChars {cs : List Char} {c : Char} (h : trimChars cs = [c]) :
    isBlank c = false := by
  have hlast : (cs.dropWhile isBlank).reverse.dropWhile isBlank = [c] := by
    rw [trimChars, List.reverse_eq_iff] at h
    simpa using h
  have hhead := List.head?_dropWhile_not isBlank (cs.dropWhile isBlank).reverse
  simpa only [hlast, List.head?_cons] using hhead

namespace Alphabet

theorem isBlank_of_character? {entry : String} {c : Char} (h : character? entry = some c) :
    isBlank c = false := by
  unfold character? at h
  split at h
  · rename_i c' hc
    obtain rfl := Option.some.inj h
    exact isBlank_of_trimChars hc
  · exact absurd h (by simp)

theorem character?_singleton {c : Char} (h : isBlank c = false) :
    character? (String.singleton c) = some c := by
  have htrim : trimChars [c] = [c] := trimChars_of_forall (by simpa using h)
  simp [character?, htrim]

theorem keepFirst_of_nodup {cs : List Char} (h : cs.Nodup) : keepFirst cs = cs := by
  induction cs with
  | nil => rfl
  | cons c cs ih =>
    obtain ⟨hc, hcs⟩ := List.nodup_cons.mp h
    have hkept : cs.filter (· ≠ c) = cs := by
      rw [List.filter_eq_self]
      intro d hd
      simpa using fun hdc : d = c => hc (hdc ▸ hd)
    rw [keepFirst, ih hcs, hkept]

theorem nodup_sanitize (entries : List String) : (sanitize entries).Nodup :=
  (nodup_keepFirst _).map fun _ _ h => String.singleton_inj.mp h

/-- Characters that are not blank, none of them twice. -/
structure WellFormed (alphabet : List String) : Prop where
  nodup : alphabet.Nodup
  entries : ∀ entry ∈ alphabet, ∃ c, entry = String.singleton c ∧ isBlank c = false

theorem isBlank_of_mem_characters {entries : List String} {c : Char}
    (h : c ∈ keepFirst (entries.filterMap character?)) : isBlank c = false := by
  obtain ⟨entry, _, hentry⟩ := List.mem_filterMap.mp (mem_keepFirst.mp h)
  exact isBlank_of_character? hentry

theorem wellFormed_sanitize (entries : List String) : WellFormed (sanitize entries) := by
  refine ⟨nodup_sanitize entries, ?_⟩
  intro entry hentry
  obtain ⟨c, hc, rfl⟩ := List.mem_map.mp hentry
  exact ⟨c, rfl, isBlank_of_mem_characters hc⟩

theorem WellFormed.sanitize_eq {alphabet : List String} (h : WellFormed alphabet) :
    sanitize alphabet = alphabet := by
  have hself : ∀ entry ∈ alphabet, (character? entry).map String.singleton = some entry := by
    intro entry hentry
    obtain ⟨c, rfl, hc⟩ := h.entries entry hentry
    rw [character?_singleton hc, Option.map_some]
  have hcharacters : (alphabet.filterMap character?).map String.singleton = alphabet := by
    rw [List.map_filterMap, List.filterMap_congr hself, List.filterMap_some]
  have hnodup : (alphabet.filterMap character?).Nodup :=
    List.Nodup.of_map String.singleton (hcharacters.symm ▸ h.nodup)
  rw [sanitize, keepFirst_of_nodup hnodup, hcharacters]

theorem wellFormed_iff {alphabet : List String} :
    WellFormed alphabet ↔ sanitize alphabet = alphabet :=
  ⟨WellFormed.sanitize_eq, fun h => h ▸ wellFormed_sanitize alphabet⟩

theorem sanitize_sanitize (entries : List String) : sanitize (sanitize entries) = sanitize entries :=
  (wellFormed_sanitize entries).sanitize_eq

end Alphabet

end AutomatonSketch
