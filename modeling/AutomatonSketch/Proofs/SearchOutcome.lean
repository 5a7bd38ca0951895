import AutomatonSketch.Proofs.Search

/-! What the search answers. It accepts exactly if some run accepts, and then shows such a run; else
it shows where it began. -/

namespace AutomatonSketch

namespace StateIndex

/-- Accepting runs, with the states they pass. A run follows listed destinations that are filed: one
listed under the next character consumes it, one listed under epsilon consumes nothing. -/
inductive Run (states : StateIndex) : Node → List Char → List Node → Prop
  | stop {n : Node} (hfinal : n.isFinal = true) : Run states n [] [n]
  | read {n m : Node} {key : StateKey} {c : Char} {cs : List Char} {path : List Node}
      (hlisted : key ∈ n.destinations (charLabel c)) (hm : states.get? key = some m)
      (hrest : Run states m cs path) : Run states n (c :: cs) (n :: path)
  | free {n m : Node} {key : StateKey} {cs : List Char} {path : List Node}
      (hlisted : key ∈ n.destinations epsilon) (hm : states.get? key = some m)
      (hrest : Run states m cs path) : Run states n cs (n :: path)

variable {states : StateIndex} {n : Node} {cs : List Char} {path : List Node}

namespace Run

theorem head?_eq (h : states.Run n cs path) : path.head? = some n := by
  cases h <;> rfl

theorem exists_last (h : states.Run n cs path) :
    ∃ last, path.getLast? = some last ∧ last.isFinal = true := by
  induction h with
  | @stop n hfinal => exact ⟨n, rfl, hfinal⟩
  | read _ _ _ ih | free _ _ _ ih =>
    obtain ⟨last, hlast, hfinal⟩ := ih
    exact ⟨last, by rw [List.getLast?_cons, hlast, Option.getD_some], hfinal⟩

/-- The moves that the search tries are the steps of a run. -/
theorem of_accepting {s : Situation} (h : states.Accepting s path) : states.Run s.1 s.2 path := by
  induction h with
  | stop hfinal => exact .stop hfinal
  | @move s t path hmove _ ih =>
    obtain ⟨n, cs⟩ := s
    rcases mem_moves.mp hmove with ⟨c, rest, rfl, m, hm, rfl⟩ | ⟨m, hm, rfl⟩
    · obtain ⟨key, hlisted, hk⟩ := List.mem_filterMap.mp hm
      exact .read hlisted hk ih
    · obtain ⟨key, hlisted, hk⟩ := List.mem_filterMap.mp hm
      exact .free hlisted hk ih

theorem accepting (h : states.Run n cs path) : states.Accepting (n, cs) path := by
  induction h with
  | stop hfinal => exact .stop hfinal
  | @read n m key c cs path hlisted hm _ ih =>
    have hnext : m ∈ states.successors n (charLabel c) := List.mem_filterMap.mpr ⟨key, hlisted, hm⟩
    exact .move (mem_moves.mpr (.inl ⟨c, cs, rfl, m, hnext, rfl⟩)) ih
  | @free n m key cs path hlisted hm _ ih =>
    have hnext : m ∈ states.successors n epsilon := List.mem_filterMap.mpr ⟨key, hlisted, hm⟩
    exact .move (mem_moves.mpr (.inr ⟨m, hnext, rfl⟩)) ih

end Run

theorem filed_of_entries (h : ∀ entry ∈ states.entries, entry.2.key = entry.1) : states.Filed :=
  fun key n hn => h (key, n) (Table.get?_eq_some_iff.mp hn)

/-- All that the test can answer: nothing, the start state, or an accepting run. -/
theorem runNondeterministic_cases (states : StateIndex) (start : StateKey) (input : String) :
    (states.get? start = none ∧ states.runNondeterministic start input = .nowhere) ∨
      ∃ n, states.get? start = some n ∧ (states.runNondeterministic start input = ⟨false, [n]⟩ ∨
        ∃ path, states.Run n input.toList path ∧
          states.runNondeterministic start input = ⟨true, path⟩) := by
  cases hstart : states.get? start with
  | none => exact .inl ⟨rfl, by simp only [runNondeterministic, hstart]⟩
  | some n =>
    refine .inr ⟨n, rfl, ?_⟩
    simp only [runNondeterministic, hstart]
    cases hsearch : states.search (states.searchBound input.toList) (n, input.toList) [] with
    | mk found explored =>
      cases found with
      | none => exact .inl rfl
      | some path => exact .inr ⟨path, .of_accepting (accepting_of_search hsearch), rfl⟩

theorem run_traversed {start : StateKey} {input : String}
    (h : (states.runNondeterministic start input).accepted = true) :
    ∃ n, states.get? start = some n ∧
      states.Run n input.toList (states.runNondeterministic start input).traversed := by
  rcases states.runNondeterministic_cases start input with
    ⟨_, htest⟩ | ⟨n, hn, htest | ⟨path, hrun, htest⟩⟩
  · simp [htest, StringTest.nowhere] at h
  · simp [htest] at h
  · exact ⟨n, hn, by rwa [htest]⟩

theorem traversed_of_rejected {start : StateKey} {input : String}
    (h : (states.runNondeterministic start input).accepted = false) :
    (states.runNondeterministic start input).traversed = (states.get? start).toList := by
  rcases states.runNondeterministic_cases start input with
    ⟨hn, htest⟩ | ⟨n, hn, htest | ⟨path, _, htest⟩⟩
  · rw [htest, hn, StringTest.nowhere, Option.toList_none]
  · rw [htest, hn, Option.toList_some]
  · simp [htest] at h

/-- The search decides whether some run from the start accepts the input. If so it shows one, from
the start state to a final one; if not it shows the start state, where there is one. -/
theorem runNondeterministic_decides (hfiled : states.Filed) (start : StateKey) (input : String) :
    let test := states.runNondeterministic start input
    (test.accepted = true ↔
        ∃ n path, states.get? start = some n ∧ states.Run n input.toList path) ∧
      (test.accepted = true → ∃ n last, states.get? start = some n ∧
        states.Run n input.toList test.traversed ∧ test.traversed.head? = some n ∧
        test.traversed.getLast? = some last ∧ last.isFinal = true) ∧
      (test.accepted = false → test.traversed = (states.get? start).toList) := by
  intro test
  refine ⟨⟨?_, ?_⟩, ?_, traversed_of_rejected⟩
  · intro haccepted
    obtain ⟨n, hn, hrun⟩ := run_traversed haccepted
    exact ⟨n, _, hn, hrun⟩
  · rintro ⟨n, path, hn, hrun⟩
    exact (runNondeterministic_accepted_iff hfiled hn input).mpr ⟨path, hrun.accepting⟩
  · intro haccepted
    obtain ⟨n, hn, hrun⟩ := run_traversed haccepted
    obtain ⟨last, hlast, hfinal⟩ := hrun.exists_last
    exact ⟨n, last, hn, hrun, hrun.head?_eq, hlast, hfinal⟩

/-- Two states on an epsilon cycle. The first lists a missing state and a dead end before the way
to the final state. -/
def cyclic : StateIndex :=
  let key (x : Int) : StateKey := (Coordinate.of x 0).key
  .ofList
    [(key 0, ⟨.of 0 0, .ofList [("a", [key 9, key 3, key 1]), (epsilon, [key 1])], true, false⟩),
      (key 1, ⟨.of 1 0, .ofList [("a", [key 2]), (epsilon, [key 0])], false, false⟩),
      (key 2, ⟨.of 2 0, .empty, false, true⟩),
      (key 3, ⟨.of 3 0, .ofList [(epsilon, [key 3])], false, false⟩)]

theorem runNondeterministic_decides_cyclic :
    cyclic.Filed ∧
      (∃ n path, cyclic.get? (Coordinate.of 0 0).key = some n ∧ cyclic.Run n "aaa".toList path) ∧
      ¬ ∃ n path, cyclic.get? (Coordinate.of 3 0).key = some n ∧ cyclic.Run n "a".toList path := by
  have hfiled : cyclic.Filed := filed_of_entries (by decide)
  have haccepted := (runNondeterministic_decides hfiled (Coordinate.of 0 0).key "aaa").1
  have hrejected := (runNondeterministic_decides hfiled (Coordinate.of 3 0).key "a").1
  exact ⟨hfiled, haccepted.mp (by decide), mt hrejected.mpr (by decide)⟩

end StateIndex

end AutomatonSketch
