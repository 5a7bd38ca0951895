import AutomatonSketch.Table

/-! Entries put in a table and taken out again. -/

namespace AutomatonSketch.Table

universe u v

variable {κ : Type u} {α : Type v} [Ord κ]

theorem length_keys (t : Table κ α) : t.keys.length = t.size := List.length_map _

variable [Std.LawfulEqOrd κ]

theorem nodup_keys (t : Table κ α) : t.keys.Nodup := by
  rw [keys, List.Nodup, List.pairwise_map]
  refine t.increasing.imp ?_
  intro a b hab he
  simp [he, Std.ReflCmp.compare_self] at hab

variable [DecidableEq κ]

theorem mem_keys {t : Table κ α} {k : κ} : k ∈ t.keys ↔ ∃ a, t.get? k = some a := by
  simp only [keys, List.mem_map, get?_eq_some_iff]
  constructor
  · rintro ⟨⟨k', a⟩, he, rfl⟩
    exact ⟨a, he⟩
  · rintro ⟨a, he⟩
    exact ⟨(k, a), he, rfl⟩

theorem get?_eq_none_iff {t : Table κ α} {k : κ} : t.get? k = none ↔ k ∉ t.keys := by
  rw [mem_keys, Option.eq_none_iff_forall_ne_some, not_exists]

theorem mem_keys_erase {t : Table κ α} {k k' : κ} :
    k' ∈ (t.erase k).keys ↔ k' ≠ k ∧ k' ∈ t.keys := by
  rw [mem_keys, mem_keys, get?_erase]
  by_cases hk : k = k'
  · simp [hk]
  · simp [hk, Ne.symm hk]

variable [Std.TransOrd κ]

@[simp] theorem mem_keys_insert {t : Table κ α} {k k' : κ} {a : α} :
    k' ∈ (t.insert k a).keys ↔ k' = k ∨ k' ∈ t.keys := by
  by_cases hk : k = k' <;> simp [mem_keys, get?_insert, hk, Ne.symm]

@[simp] theorem mem_keys_modify {t : Table κ α} {k k' : κ} {f : α → α} :
    k' ∈ (t.modify k f).keys ↔ k' ∈ t.keys := by
  rw [mem_keys, mem_keys, get?_modify]
  by_cases hk : k = k'
  · cases t.get? k' <;> simp [hk]
  · rw [if_neg hk]

theorem erase_insert {t : Table κ α} {k : κ} (h : k ∉ t.keys) (a : α) :
    (t.insert k a).erase k = t := by
  apply ext_get?
  intro k'
  by_cases hk : k = k'
  · subst hk
    rw [get?_erase, if_pos rfl, get?_eq_none_iff.mpr h]
  · rw [get?_erase, if_neg hk, get?_insert, if_neg hk]

/-- A change that a second one takes back. -/
theorem modify_modify {t : Table κ α} {k : κ} {f g : α → α}
    (h : ∀ a, t.get? k = some a → g (f a) = a) : (t.modify k f).modify k g = t := by
  apply ext_get?
  intro k'
  rw [get?_modify, get?_modify]
  by_cases hk : k = k'
  · subst hk
    cases ha : t.get? k with
    | none => simp
    | some a => simp [h a ha]
  · simp [hk]

end AutomatonSketch.Table
