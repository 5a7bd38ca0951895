import AutomatonSketch.Proofs.Entries
import AutomatonSketch.Simulation.Nondeterministic
import Mathlib.Data.Finset.Prod

/-! The depth-first search finds an accepting run exactly if there is one. A situation explored in
vain leads to no accepting run, and no more situations than the bound can be explored. -/

namespace AutomatonSketch

theorem eq_of_suffix_of_length_eq {α : Type} {l m cs : List α} (hl : l <:+ cs) (hm : m <:+ cs)
    (h : l.length = m.length) : l = m :=
  (List.suffix_of_suffix_length_le hl hm h.le).eq_of_length h

theorem mem_of_firstSuccess {search : Situation → List Mark → Option (List Node) × List Mark}
    {candidates : List Situation} {explored explored' : List Mark} {path : List Node}
    (h : firstSuccess search candidates explored = (some path, explored')) :
    ∃ s ∈ candidates, ∃ before after, search s before = (some path, after) := by
  induction candidates generalizing explored with
  | nil => simp [firstSuccess] at h
  | cons s candidates ih =>
    unfold firstSuccess at h
    split at h
    · rename_i path' after hs
      obtain rfl : path' = path := by simpa using congrArg Prod.fst h
      exact ⟨s, List.mem_cons_self, explored, after, hs⟩
    · obtain ⟨t, ht, hfound⟩ := ih h
      exact ⟨t, List.mem_cons_of_mem _ ht, hfound⟩

namespace StateIndex

/-- Runs that end in a final state with nothing left to read, with the states they pass. -/
inductive Accepting (states : StateIndex) : Situation → List Node → Prop
  | stop {n : Node} (hfinal : n.isFinal = true) : Accepting states (n, []) [n]
  | move {s t : Situation} {path : List Node} (hmove : t ∈ states.moves s)
      (hrest : Accepting states t path) : Accepting states s (s.1 :: path)

def Filed (states : StateIndex) : Prop := ∀ key n, states.get? key = some n → n.key = key

/-- The states filed, at every place of the input. -/
structure Within (states : StateIndex) (input : List Char) (s : Situation) : Prop where
  filed : states.get? s.1.key = some s.1
  rest : s.2 <:+ input

def marks (states : StateIndex) (input : List Char) : Finset Mark :=
  states.keys.toFinset ×ˢ Finset.range (input.length + 1)

def unexplored (states : StateIndex) (input : List Char) (explored : List Mark) : Finset Mark :=
  states.marks input \ explored.toFinset

variable {states : StateIndex} {input : List Char}

theorem mem_unexplored {explored : List Mark} {m : Mark} :
    m ∈ states.unexplored input explored ↔ m ∈ states.marks input ∧ m ∉ explored := by
  rw [unexplored, Finset.mem_sdiff, List.mem_toFinset]

theorem card_marks_le (states : StateIndex) (input : List Char) :
    (states.marks input).card ≤ states.searchBound input := by
  rw [marks, Finset.card_product, Finset.card_range, searchBound]
  refine Nat.mul_le_mul_right _ ((List.toFinset_card_le _).trans ?_)
  rw [Table.keys, List.length_map, Table.size]

theorem filed_of_mem_successors (h : states.Filed) {n m : Node} {label : String}
    (hm : m ∈ states.successors n label) : states.get? m.key = some m := by
  obtain ⟨key, _, hk⟩ := List.mem_filterMap.mp hm
  rwa [h key m hk]

theorem mem_moves {n : Node} {cs : List Char} {t : Situation} :
    t ∈ states.moves (n, cs) ↔
      (∃ c rest, cs = c :: rest ∧ ∃ m ∈ states.successors n (charLabel c), t = (m, rest)) ∨
        ∃ m ∈ states.successors n epsilon, t = (m, cs) := by
  cases cs with
  | nil => simp [moves, eq_comm]
  | cons c rest => simp [moves, eq_comm]

namespace Within

variable {s t : Situation}

theorem mark_mem (h : Within states input s) : s.mark ∈ states.marks input := by
  rw [marks, Finset.mem_product, List.mem_toFinset, Finset.mem_range]
  exact ⟨Table.mem_keys.mpr ⟨s.1, h.filed⟩, Nat.lt_succ_of_le h.rest.length_le⟩

theorem move (h : Within states input s) (hfiled : states.Filed) (ht : t ∈ states.moves s) :
    Within states input t := by
  rcases mem_moves.mp ht with ⟨c, rest, hcs, m, hm, rfl⟩ | ⟨m, hm, rfl⟩
  · exact ⟨filed_of_mem_successors hfiled hm, (List.suffix_cons c rest).trans (hcs ▸ h.rest)⟩
  · exact ⟨filed_of_mem_successors hfiled hm, h.rest⟩

theorem eq_of_mark_eq (hs : Within states input s) (ht : Within states input t)
    (h : s.mark = t.mark) : s = t := by
  obtain ⟨hkey, hlength⟩ := Prod.mk.inj h
  have hnode : s.1 = t.1 := Option.some.inj (by rw [← hs.filed, ← ht.filed, hkey])
  exact Prod.ext hnode (eq_of_suffix_of_length_eq hs.rest ht.rest hlength)

end Within

/-- What was explored between two points of a search leads no further, and accepts nothing. -/
structure Exhausted (states : StateIndex) (input : List Char) (before after : List Mark) :
    Prop where
  mono : before ⊆ after
  closed : ∀ s, Within states input s → s.mark ∈ after → s.mark ∈ before ∨
    (¬ (s.2 = [] ∧ s.1.isFinal = true) ∧ ∀ t ∈ states.moves s, t.mark ∈ after)

namespace Exhausted

variable {before between after : List Mark}

theorem refl (explored : List Mark) : Exhausted states input explored explored :=
  ⟨List.Subset.refl explored, fun _ _ hm => .inl hm⟩

theorem trans (h : Exhausted states input before between)
    (h' : Exhausted states input between after) : Exhausted states input before after := by
  refine ⟨List.Subset.trans h.mono h'.mono, ?_⟩
  intro s hs hm
  rcases h'.closed s hs hm with hm | hlater
  · rcases h.closed s hs hm with hm | ⟨hfinal, hmoves⟩
    · exact .inl hm
    · exact .inr ⟨hfinal, fun t ht => h'.mono (hmoves t ht)⟩
  · exact .inr hlater

theorem unexplored_card_le (h : Exhausted states input before after) :
    (states.unexplored input after).card ≤ (states.unexplored input before).card := by
  refine Finset.card_le_card ?_
  intro m hm
  obtain ⟨hmark, hnew⟩ := mem_unexplored.mp hm
  exact mem_unexplored.mpr ⟨hmark, fun hb => hnew (h.mono hb)⟩

/-- Candidates that are tried in turn and all fail. -/
theorem of_firstSuccess {fuel : Nat}
    {search : Situation → List Mark → Option (List Node) × List Mark}
    (hsearch : ∀ s before after, Within states input s →
      (states.unexplored input before).card ≤ fuel → search s before = (none, after) →
      s.mark ∈ after ∧ Exhausted states input before after)
    {candidates : List Situation} (hwithin : ∀ s ∈ candidates, Within states input s)
    (hfuel : (states.unexplored input before).card ≤ fuel)
    (h : firstSuccess search candidates before = (none, after)) :
    (∀ s ∈ candidates, s.mark ∈ after) ∧ Exhausted states input before after := by
  induction candidates generalizing before with
  | nil =>
    obtain rfl : before = after := congrArg Prod.snd h
    exact ⟨fun _ hs => absurd hs List.not_mem_nil, .refl before⟩
  | cons s candidates ih =>
    unfold firstSuccess at h
    split at h
    · simp at h
    · rename_i between hs
      obtain ⟨hmark, hfirst⟩ := hsearch s before between (hwithin s List.mem_cons_self) hfuel hs
      obtain ⟨hmarks, hrest⟩ := ih (fun t ht => hwithin t (List.mem_cons_of_mem _ ht))
        (hfirst.unexplored_card_le.trans hfuel) h
      exact ⟨List.forall_mem_cons.mpr ⟨hrest.mono hmark, hmarks⟩, hfirst.trans hrest⟩

end Exhausted

theorem unexplored_card_lt {explored : List Mark} {s : Situation} (hs : Within states input s)
    (hnew : s.mark ∉ explored) :
    (states.unexplored input (s.mark :: explored)).card <
      (states.unexplored input explored).card := by
  refine Finset.card_lt_card (Finset.ssubset_iff_of_subset ?_ |>.mpr ⟨s.mark, ?_, ?_⟩)
  · intro m hm
    obtain ⟨hmark, hm⟩ := mem_unexplored.mp hm
    exact mem_unexplored.mpr ⟨hmark, fun he => hm (List.mem_cons_of_mem _ he)⟩
  · exact mem_unexplored.mpr ⟨hs.mark_mem, hnew⟩
  · exact fun hm => (mem_unexplored.mp hm).2 List.mem_cons_self

/-- What the search finds is an accepting run. -/
theorem accepting_of_search {fuel : Nat} {s : Situation} {before after : List Mark}
    {path : List Node} (h : states.search fuel s before = (some path, after)) :
    states.Accepting s path := by
  induction fuel generalizing s before after path with
  | zero => simp [search] at h
  | succ fuel ih =>
    unfold search at h
    split at h
    · simp at h
    · split at h
      · rename_i hstop
        obtain ⟨n, cs⟩ := s
        obtain ⟨rfl, hfinal⟩ := hstop
        obtain rfl : [n] = path := by simpa using congrArg Prod.fst h
        exact .stop hfinal
      · split at h
        · rename_i rest _ hfound
          obtain rfl : s.1 :: rest = path := by simpa using congrArg Prod.fst h
          obtain ⟨t, ht, _, _, hsearch⟩ := mem_of_firstSuccess hfound
          exact .move ht (ih hsearch)
        · simp at h

/-- With fuel for all that is unexplored, a search fails only where there is nothing to find. -/
theorem exhausted_of_search (hfiled : states.Filed) {fuel : Nat} {s : Situation}
    {before after : List Mark} (hs : Within states input s)
    (hfuel : (states.unexplored input before).card ≤ fuel)
    (h : states.search fuel s before = (none, after)) :
    s.mark ∈ after ∧ Exhausted states input before after := by
  induction fuel generalizing s before after with
  | zero =>
    obtain rfl : before = after := congrArg Prod.snd h
    refine ⟨?_, .refl before⟩
    by_contra hnew
    have := unexplored_card_lt hs hnew
    omega
  | succ fuel ih =>
    unfold search at h
    split at h
    · rename_i hold
      obtain rfl : before = after := congrArg Prod.snd h
      exact ⟨hold, .refl before⟩
    · rename_i hnew
      split at h
      · simp at h
      · rename_i hstop
        split at h
        · simp at h
        · rename_i after' hfailed
          obtain rfl : after' = after := congrArg Prod.snd h
          have hless := unexplored_card_lt hs hnew
          obtain ⟨hmoves, hbelow⟩ := Exhausted.of_firstSuccess
            (fun t before after ht hf hsearch => ih ht hf hsearch)
            (fun t ht => hs.move hfiled ht) (by omega) hfailed
          refine ⟨hbelow.mono List.mem_cons_self,
            List.Subset.trans (List.subset_cons_self _ _) hbelow.mono, ?_⟩
          -- the only new mark the candidates did not leave is that of `s` itself
          intro t ht hm
          rcases hbelow.closed t ht hm with hm | hlater
          · rcases List.mem_cons.mp hm with hm | hm
            · obtain rfl := ht.eq_of_mark_eq hs hm
              exact .inr ⟨hstop, hmoves⟩
            · exact .inl hm
          · exact .inr hlater

theorem Exhausted.not_accepting (hfiled : states.Filed) {explored : List Mark}
    (h : Exhausted states input [] explored) {s : Situation} {path : List Node}
    (hs : Within states input s) (hm : s.mark ∈ explored) : ¬ states.Accepting s path := by
  intro hrun
  induction hrun with
  | stop hfinal =>
    rcases h.closed _ hs hm with hm | ⟨hstop, _⟩
    · exact absurd hm List.not_mem_nil
    · exact hstop ⟨rfl, hfinal⟩
  | move hmove _ ih =>
    rcases h.closed _ hs hm with hm | ⟨_, hmoves⟩
    · exact absurd hm List.not_mem_nil
    · exact ih (hs.move hfiled hmove) (hmoves _ hmove)

theorem runNondeterministic_accepted_iff (hfiled : states.Filed) {start : StateKey} {n : Node}
    (hstart : states.get? start = some n) (input : String) :
    (states.runNondeterministic start input).accepted = true ↔
      ∃ path, states.Accepting (n, input.toList) path := by
  have hs : Within states input.toList (n, input.toList) :=
    ⟨by rwa [hfiled start n hstart], List.suffix_refl _⟩
  simp only [runNondeterministic, hstart]
  cases hsearch : states.search (states.searchBound input.toList) (n, input.toList) [] with
  | mk found explored =>
    cases found with
    | some path => exact iff_of_true rfl ⟨path, accepting_of_search hsearch⟩
    | none =>
      have hfuel : (states.unexplored input.toList []).card ≤ states.searchBound input.toList :=
        (Finset.card_le_card Finset.sdiff_subset).trans (card_marks_le states _)
      obtain ⟨hm, hexhausted⟩ := exhausted_of_search hfiled hs hfuel hsearch
      refine iff_of_false Bool.false_ne_true ?_
      rintro ⟨path, hrun⟩
      exact hexhausted.not_accepting hfiled hs hm hrun

end StateIndex

end AutomatonSketch
