import AutomatonSketch.Proofs.Alphabet
import AutomatonSketch.Proofs.SearchOutcome
import AutomatonSketch.Simulation.Check

/-! The two ways of running a string. The first transition for each character is one of those the
search may take; in a valid DFA there is no other, so both runs are the same. -/

namespace AutomatonSketch

namespace StateIndex

variable {states : StateIndex} {alphabet : List String} {key : StateKey} {n : Node}
  {cs : List Char} {path : List Node}

theorem isValidDfa_iff : states.isValidDfa alphabet = true ↔
    ∀ key n, states.get? key = some n → n.outgoing.size = alphabet.length ∧
      ∀ label ∈ alphabet, ∃ next, n.destinations? label = some [next] := by
  have hone (n : Node) (label : String) :
      ((n.destinations? label).map List.length == some 1) = true ↔
        ∃ next, n.destinations? label = some [next] := by
    rw [beq_iff_eq, Option.map_eq_some_iff]
    constructor
    · rintro ⟨listed, hl, hlength⟩
      obtain ⟨next, rfl⟩ := List.length_eq_one_iff.mp hlength
      exact ⟨next, hl⟩
    · rintro ⟨next, hl⟩
      exact ⟨[next], hl, rfl⟩
  simp only [isValidDfa, List.all_eq_true, Bool.and_eq_true, beq_iff_eq, Table.values,
    List.mem_map, hone]
  constructor
  · intro h key n hn
    exact h n ⟨(key, n), Table.get?_eq_some_iff.mp hn, rfl⟩
  · rintro h n ⟨⟨key, m⟩, hm, rfl⟩
    exact h key m (Table.get?_eq_some_iff.mpr hm)

end StateIndex

end AutomatonSketch
