/-! Finite maps kept as lists in increasing key order, so that two maps with the same entries
are equal. -/

namespace AutomatonSketch

universe u v

/-- A finite map from `κ` to `α`. -/
structure Table (κ : Type u) (α : Type v) [Ord κ] where
  entries : List (κ × α)
  increasing : entries.Pairwise fun a b => compare a.1 b.1 = .lt
deriving DecidableEq

namespace Table

variable {κ : Type u} {α : Type v}

def find [DecidableEq κ] (k : κ) : List (κ × α) → Option α
  | [] => none
  | (k', a) :: rest => if k' = k then some a else find k rest

/-- Puts an entry at its place, over the entry of an equal key. -/
def insertEntry [Ord κ] (k : κ) (a : α) : List (κ × α) → List (κ × α)
  | [] => [(k, a)]
  | (k', a') :: rest =>
    match compare k k' with
    | .lt => (k, a) :: (k', a') :: rest
    | .eq => (k, a) :: rest
    | .gt => (k', a') :: insertEntry k a rest

theorem fst_mem_insertEntry [Ord κ] {k : κ} {a : α} {l : List (κ × α)} {e : κ × α}
    (h : e ∈ insertEntry k a l) : e = (k, a) ∨ e ∈ l := by
  induction l with
  | nil => simpa [insertEntry] using h
  | cons x rest ih =>
    simp only [insertEntry] at h
    split at h
    · simpa using h
    · rcases List.mem_cons.1 h with h | h
      · exact .inl h
      · exact .inr (List.mem_cons_of_mem _ h)
    · rcases List.mem_cons.1 h with h | h
      · exact .inr (h ▸ List.mem_cons_self)
      · exact (ih h).imp_right (List.mem_cons_of_mem _)

theorem pairwise_insertEntry [Ord κ] [Std.TransOrd κ] [Std.LawfulEqOrd κ] {k : κ} {a : α}
    {l : List (κ × α)} (h : l.Pairwise fun a b => compare a.1 b.1 = .lt) :
    (insertEntry k a l).Pairwise fun a b => compare a.1 b.1 = .lt := by
  induction l with
  | nil => simp [insertEntry]
  | cons x rest ih =>
    obtain ⟨hx, hrest⟩ := List.pairwise_cons.1 h
    simp only [insertEntry]
    split
    · rename_i hlt
      refine List.pairwise_cons.2 ⟨fun e he => ?_, h⟩
      rcases List.mem_cons.1 he with rfl | he
      · exact hlt
      · exact Std.TransCmp.lt_trans hlt (hx e he)
    · rename_i heq
      have hk : k = x.1 := Std.LawfulEqCmp.eq_of_compare heq
      exact List.pairwise_cons.2 ⟨fun e he => hk ▸ hx e he, hrest⟩
    · rename_i hgt
      refine List.pairwise_cons.2 ⟨fun e he => ?_, ih hrest⟩
      rcases fst_mem_insertEntry he with rfl | he
      · exact Std.OrientedCmp.lt_of_gt hgt
      · exact hx e he

section

variable [Ord κ]

def empty : Table κ α := ⟨[], .nil⟩

instance : EmptyCollection (Table κ α) := ⟨empty⟩

instance : Inhabited (Table κ α) := ⟨empty⟩

def get? [DecidableEq κ] (t : Table κ α) (k : κ) : Option α := find k t.entries

def contains [DecidableEq κ] (t : Table κ α) (k : κ) : Bool := (t.get? k).isSome

def size (t : Table κ α) : Nat := t.entries.length

def isEmpty (t : Table κ α) : Bool := t.entries.isEmpty

def keys (t : Table κ α) : List κ := t.entries.map (·.1)

def values (t : Table κ α) : List α := t.entries.map (·.2)

/-- Files `a` under `k`, over whatever was filed there. -/
def insert [Std.TransOrd κ] [Std.LawfulEqOrd κ] (t : Table κ α) (k : κ) (a : α) : Table κ α :=
  ⟨insertEntry k a t.entries, pairwise_insertEntry t.increasing⟩

def erase [DecidableEq κ] (t : Table κ α) (k : κ) : Table κ α :=
  ⟨t.entries.filter (·.1 ≠ k), t.increasing.filter _⟩

/-- Changes the value filed under `k`, if there is one. -/
def modify [DecidableEq κ] [Std.TransOrd κ] [Std.LawfulEqOrd κ] (t : Table κ α) (k : κ)
    (f : α → α) : Table κ α :=
  match t.get? k with
  | some a => t.insert k (f a)
  | none => t

/-- The table of a list of entries; of entries with one key the last counts. -/
def ofList [Std.TransOrd κ] [Std.LawfulEqOrd κ] (l : List (κ × α)) : Table κ α :=
  l.foldl (fun t e => t.insert e.1 e.2) empty

end

section Lemmas

variable [DecidableEq κ]

theorem find_insertEntry [Ord κ] [Std.LawfulEqOrd κ] {k k' : κ} {a : α} {l : List (κ × α)} :
    find k' (insertEntry k a l) = if k = k' then some a else find k' l := by
  induction l with
  | nil => simp [insertEntry, find]
  | cons x rest ih =>
    simp only [insertEntry]
    split
    · simp only [find]
    · rename_i heq
      have hk : k = x.1 := Std.LawfulEqCmp.eq_of_compare heq
      subst hk
      simp only [find]
      split <;> rfl
    · rename_i hgt
      have hk : k ≠ x.1 := by
        rintro rfl
        simp [Std.ReflCmp.compare_self] at hgt
      simp only [find, ih]
      by_cases h1 : x.1 = k'
      · subst h1; simp [hk]
      · simp [h1]

theorem find_eq_none {k : κ} {l : List (κ × α)} (h : ∀ e ∈ l, e.1 ≠ k) : find k l = none := by
  induction l with
  | nil => rfl
  | cons x rest ih =>
    simp only [find, h x List.mem_cons_self, if_false]
    exact ih fun e he => h e (List.mem_cons_of_mem _ he)

theorem find_filter_ne {k k' : κ} {l : List (κ × α)} :
    find k' (l.filter (·.1 ≠ k)) = if k = k' then none else find k' l := by
  induction l with
  | nil => simp [find]
  | cons x rest ih =>
    by_cases hx : x.1 = k
    · subst hx
      simp only [List.filter_cons, ne_eq, not_true, decide_false, Bool.false_eq_true, if_false]
      by_cases hk : x.1 = k'
      · subst hk; simpa using ih
      · simpa [hk, find] using ih
    · have hx' : decide (x.1 ≠ k) = true := by simpa using hx
      simp only [List.filter_cons, hx', if_true, find]
      by_cases hk : k = k'
      · subst hk; simpa [hx] using ih
      · simp only [hk, if_false] at ih ⊢
        simp only [ih]

theorem mem_of_find {k : κ} {a : α} {l : List (κ × α)} (h : find k l = some a) : (k, a) ∈ l := by
  induction l with
  | nil => simp [find] at h
  | cons x rest ih =>
    obtain ⟨k', a'⟩ := x
    simp only [find] at h
    split at h
    · rename_i hk
      subst hk
      obtain rfl := Option.some.inj h
      exact List.mem_cons_self
    · exact List.mem_cons_of_mem _ (ih h)

@[simp] theorem get?_empty [Ord κ] (k : κ) : (empty : Table κ α).get? k = none := rfl

theorem get?_erase [Ord κ] (t : Table κ α) (k k' : κ) :
    (t.erase k).get? k' = if k = k' then none else t.get? k' := find_filter_ne

variable [Ord κ] [Std.LawfulEqOrd κ]

theorem find_of_mem {k : κ} {a : α} {l : List (κ × α)}
    (hs : l.Pairwise fun a b => compare a.1 b.1 = .lt) (h : (k, a) ∈ l) : find k l = some a := by
  induction l with
  | nil => simp at h
  | cons x rest ih =>
    obtain ⟨hx, hrest⟩ := List.pairwise_cons.1 hs
    rcases List.mem_cons.1 h with h | h
    · subst h; simp [find]
    · have hne : x.1 ≠ k := by
        intro he
        have := hx _ h
        simp [he, Std.ReflCmp.compare_self] at this
      simp [find, hne, ih hrest h]

theorem get?_eq_some_iff {t : Table κ α} {k : κ} {a : α} :
    t.get? k = some a ↔ (k, a) ∈ t.entries :=
  ⟨mem_of_find, find_of_mem t.increasing⟩

variable [Std.TransOrd κ]

theorem get?_insert (t : Table κ α) (k k' : κ) (a : α) :
    (t.insert k a).get? k' = if k = k' then some a else t.get? k' := find_insertEntry

theorem get?_modify (t : Table κ α) (k k' : κ) (f : α → α) :
    (t.modify k f).get? k' = if k = k' then (t.get? k').map f else t.get? k' := by
  unfold modify
  split
  · rename_i a ha
    rw [get?_insert]
    by_cases hk : k = k'
    · subst hk; simp [ha]
    · simp [hk]
  · rename_i hn
    by_cases hk : k = k'
    · subst hk; simp [hn]
    · simp [hk]

/-- Maps that answer every look-up alike are equal. -/
theorem ext_get? {s t : Table κ α} (h : ∀ k, s.get? k = t.get? k) : s = t := by
  have hmem : ∀ e, e ∈ s.entries ↔ e ∈ t.entries := fun e => by
    rw [← get?_eq_some_iff (k := e.1) (a := e.2), ← get?_eq_some_iff (k := e.1) (a := e.2), h]
  have hentries : s.entries = t.entries := by
    obtain ⟨l, hl⟩ := s
    obtain ⟨m, hm⟩ := t
    clear h
    simp only at hmem
    show l = m
    induction l generalizing m with
    | nil =>
      cases m with
      | nil => rfl
      | cons y m => exact absurd ((hmem y).2 List.mem_cons_self) (by simp)
    | cons x l ih =>
      cases m with
      | nil => exact absurd ((hmem x).1 List.mem_cons_self) (by simp)
      | cons y m =>
        obtain ⟨hx, hl'⟩ := List.pairwise_cons.1 hl
        obtain ⟨hy, hm'⟩ := List.pairwise_cons.1 hm
        have asymm : ∀ {a b : κ}, compare a b = .lt → compare b a = .lt → False := fun h1 h2 => by
          simpa [Std.ReflCmp.compare_self] using Std.TransCmp.lt_trans h1 h2
        have hxy : x = y := by
          rcases List.mem_cons.1 ((hmem x).1 List.mem_cons_self) with h1 | h1
          · exact h1
          · rcases List.mem_cons.1 ((hmem y).2 List.mem_cons_self) with h2 | h2
            · exact h2.symm
            · exact (asymm (hy x h1) (hx y h2)).elim
        subst hxy
        congr 1
        refine ih hl' m hm' fun e => ⟨fun he => ?_, fun he => ?_⟩
        · rcases List.mem_cons.1 ((hmem e).1 (List.mem_cons_of_mem _ he)) with rfl | h1
          · exact (asymm (hx e he) (hx e he)).elim
          · exact h1
        · rcases List.mem_cons.1 ((hmem e).2 (List.mem_cons_of_mem _ he)) with rfl | h1
          · exact (asymm (hy e he) (hy e he)).elim
          · exact h1
  cases s
  cases t
  congr

end Lemmas

end Table

end AutomatonSketch
