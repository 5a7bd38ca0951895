import AutomatonSketch.Proofs.CheckedResults

/-! The path of the deterministic run. It follows first destinations as long as there are any, and is
the only path that does so; where it has read one part of an input, it goes on as a run from there. -/

namespace AutomatonSketch

namespace StateIndex

/-- The first key that a state lists for a character is filed, and this is its state. -/
def LeadsFirst (states : StateIndex) (n : Node) (c : Char) (m : Node) : Prop :=
  ∃ key later, n.destinations? (charLabel c) = some (key :: later) ∧ states.get? key = some m

/-- A state has no list for a character, or an empty one, or one that begins with a missing key. -/
def Stuck (states : StateIndex) (n : Node) (c : Char) : Prop :=
  n.destinations? (charLabel c) = none ∨ n.destinations? (charLabel c) = some [] ∨
    ∃ key later, n.destinations? (charLabel c) = some (key :: later) ∧ states.get? key = none

/-- The path from a state along first destinations, as far as it goes. It is accepted if it has read
all characters and ends in a final state. -/
structure LongestPath (states : StateIndex) (n : Node) (cs : List Char) (test : StringTest) :
    Prop where
  head : test.traversed[0]? = some n
  steps : ∀ i next, test.traversed[i + 1]? = some next →
    ∃ prev c, test.traversed[i]? = some prev ∧ cs[i]? = some c ∧ states.LeadsFirst prev c next
  stops : ∀ i last c, test.traversed[i]? = some last → test.traversed[i + 1]? = none →
    cs[i]? = some c → states.Stuck last c
  accepted : test.accepted = true ↔ test.traversed.length = cs.length + 1 ∧
    ∃ last, test.traversed.getLast? = some last ∧ last.isFinal = true

variable {states : StateIndex} {n m : Node} {c : Char} {cs : List Char} {test : StringTest}

theorem next?_eq_some_iff : states.next? n c = some m ↔ states.LeadsFirst n c m := by
  unfold next? LeadsFirst Node.destinations
  cases hlist : n.destinations? (charLabel c) with
  | none => simp
  | some listed => cases listed <;> simp

theorem next?_eq_none_iff : states.next? n c = none ↔ states.Stuck n c := by
  unfold next? Stuck Node.destinations
  cases hlist : n.destinations? (charLabel c) with
  | none => simp
  | some listed => cases listed <;> simp

namespace LongestPath

theorem nil (states : StateIndex) (n : Node) : states.LongestPath n [] ⟨n.isFinal, [n]⟩ := by
  refine ⟨rfl, ?_, ?_, ?_⟩
  · intro i next hnext
    simp at hnext
  · intro i last c _ _ hc
    simp at hc
  · simp

theorem stuck (h : states.Stuck n c) (cs : List Char) :
    states.LongestPath n (c :: cs) ⟨false, [n]⟩ := by
  refine ⟨rfl, ?_, ?_, ?_⟩
  · intro i next hnext
    simp at hnext
  · intro i last c' hlast _ hc
    cases i with
    | zero =>
      obtain rfl : n = last := by simpa using hlast
      obtain rfl : c = c' := by simpa using hc
      exact h
    | succ i => simp at hlast
  · simp

theorem cons (h : states.LeadsFirst n c m) (hrest : states.LongestPath m cs test) :
    states.LongestPath n (c :: cs) ⟨test.accepted, n :: test.traversed⟩ := by
  refine ⟨rfl, ?_, ?_, ?_⟩
  · intro i next hnext
    cases i with
    | zero =>
      obtain rfl : m = next := Option.some.inj (hrest.head.symm.trans hnext)
      exact ⟨n, c, rfl, rfl, h⟩
    | succ i => exact hrest.steps i next hnext
  · intro i last c' hlast hnone hc
    cases i with
    | zero => exact absurd (hrest.head.symm.trans hnone) (by simp)
    | succ i => exact hrest.stops i last c' hlast hnone hc
  · have hne : test.traversed ≠ [] := by
      intro hnil
      simpa [hnil] using hrest.head
    rw [hrest.accepted]
    simp [List.getLast?_cons_of_ne_nil hne]

theorem follow (states : StateIndex) (n : Node) (cs : List Char) :
    states.LongestPath n cs (states.follow n cs) := by
  induction cs generalizing n with
  | nil => exact nil states n
  | cons c cs ih =>
    cases hnext : states.next? n c with
    | none => simpa [StateIndex.follow, hnext] using stuck (next?_eq_none_iff.mp hnext) cs
    | some m => simpa [StateIndex.follow, hnext] using (ih m).cons (next?_eq_some_iff.mp hnext)

section Unique

variable {test' : StringTest}

/-- Where one path has gone on, another that has come to the same state goes on in the same way. -/
theorem getElem?_succ (h : states.LongestPath n cs test) (h' : states.LongestPath n cs test')
    {i : Nat} (hi : test.traversed[i]? = test'.traversed[i]?) {next : Node}
    (hnext : test.traversed[i + 1]? = some next) : test'.traversed[i + 1]? = some next := by
  obtain ⟨prev, c, hprev, hc, hleads⟩ := h.steps i next hnext
  have hprev' : test'.traversed[i]? = some prev := hi ▸ hprev
  cases hnext' : test'.traversed[i + 1]? with
  | none =>
    have hstuck := next?_eq_none_iff.mpr (h'.stops i prev c hprev' hnext' hc)
    exact absurd (next?_eq_some_iff.mpr hleads) (by simp [hstuck])
  | some next' =>
    obtain ⟨prev', c', hprev'', hc', hleads'⟩ := h'.steps i next' hnext'
    obtain rfl := Option.some.inj (hprev'.symm.trans hprev'')
    obtain rfl := Option.some.inj (hc.symm.trans hc')
    rw [← next?_eq_some_iff.mpr hleads, next?_eq_some_iff.mpr hleads']

theorem unique (h : states.LongestPath n cs test) (h' : states.LongestPath n cs test') :
    test = test' := by
  have hentries (i : Nat) : test.traversed[i]? = test'.traversed[i]? := by
    induction i with
    | zero => rw [h.head, h'.head]
    | succ i ih =>
      cases hnext : test.traversed[i + 1]? with
      | some next => exact (h.getElem?_succ h' ih hnext).symm
      | none =>
        cases hnext' : test'.traversed[i + 1]? with
        | none => rfl
        | some next => simp [h'.getElem?_succ h ih.symm hnext'] at hnext
  have htraversed : test.traversed = test'.traversed := List.ext_getElem? hentries
  have haccepted : test.accepted = test'.accepted := by
    rw [Bool.eq_iff_iff, h.accepted, h'.accepted, htraversed]
  cases test
  cases test'
  congr

end Unique

end LongestPath

theorem follow_append {us : List Char} (vs : List Char)
    (h : (states.follow n us).traversed.length = us.length + 1) :
    ∃ q, (states.follow n us).traversed.getLast? = some q ∧
      states.follow n (us ++ vs) = ⟨(states.follow q vs).accepted,
        (states.follow n us).traversed.dropLast ++ (states.follow q vs).traversed⟩ := by
  induction us generalizing n with
  | nil => exact ⟨n, rfl, rfl⟩
  | cons c us ih =>
    cases hnext : states.next? n c with
    | none => simp [follow, hnext] at h
    | some m =>
      have hrest : (states.follow m us).traversed.length = us.length + 1 := by
        simpa [follow, hnext] using h
      have hne : (states.follow m us).traversed ≠ [] := List.ne_nil_of_length_eq_add_one hrest
      obtain ⟨q, hq, happend⟩ := ih hrest
      refine ⟨q, ?_, ?_⟩
      · simp [follow, hnext, List.getLast?_cons_of_ne_nil hne, hq]
      · simp [follow, hnext, happend, List.dropLast_cons_of_ne_nil hne]

theorem runDeterministic_of_get? {start : StateKey} (h : states.get? start = some n)
    (input : String) : states.runDeterministic start input = states.follow n input.toList := by
  simp only [runDeterministic, h]

/-- The run follows first destinations from the start for as long as there are any, and this tells
all about it. If it reads the whole of a text, then on any continuation of that text it is the run on
the continuation from where it has come to. -/
theorem runDeterministic_longest (hfiled : states.Filed) {start : StateKey}
    (hstart : states.get? start = some n) :
    (∀ input test, states.runDeterministic start input = test ↔
        states.LongestPath n input.toList test) ∧
      ∀ u v, let first := states.runDeterministic start u
        first.traversed.length = u.length + 1 →
          ∃ q, first.traversed.getLast? = some q ∧ states.get? q.key = some q ∧
            let rest := states.runDeterministic q.key v
            states.runDeterministic start (u ++ v) =
              ⟨rest.accepted, first.traversed.dropLast ++ rest.traversed⟩ := by
  constructor
  · intro input test
    rw [runDeterministic_of_get? hstart]
    constructor
    · rintro rfl
      exact .follow states n input.toList
    · intro h
      exact (LongestPath.follow states n input.toList).unique h
  · intro u v first hlength
    have hfirst : first = states.follow n u.toList := runDeterministic_of_get? hstart u
    rw [hfirst, ← String.length_toList] at hlength
    obtain ⟨q, hq, happend⟩ := follow_append v.toList hlength
    have hn : states.get? n.key = some n := (hfiled start n hstart).symm ▸ hstart
    have hqfiled : states.get? q.key = some q :=
      get?_of_mem_follow hfiled hn (List.mem_of_getLast? hq)
    refine ⟨q, hfirst ▸ hq, hqfiled, ?_⟩
    rw [runDeterministic_of_get? hstart, runDeterministic_of_get? hqfiled, String.toList_append,
      happend, hfirst]

/-- A list that begins with a missing key, an empty one, and characters without any. -/
def gappy : StateIndex :=
  let key (x : Int) : StateKey := (Coordinate.of x 0).key
  .ofList
    [(key 0, ⟨.of 0 0, .ofList [("a", [key 1, key 9]), ("b", [key 9, key 1])], true, false⟩),
      (key 1, ⟨.of 1 0, .ofList [("a", [key 0, key 1]), ("b", [])], false, true⟩)]

theorem runDeterministic_longest_gappy :
    let key := (Coordinate.of 0 0).key
    gappy.Filed ∧ (gappy.runDeterministic key "aa").traversed.length = 3 ∧
      ∃ n q : Node, gappy.get? key = some n ∧
        gappy.LongestPath n "aab".toList (gappy.runDeterministic key "aab") ∧
        gappy.runDeterministic key "aaab" = ⟨(gappy.runDeterministic q.key "ab").accepted,
          (gappy.runDeterministic key "aa").traversed.dropLast ++
            (gappy.runDeterministic q.key "ab").traversed⟩ := by
  intro key
  have hfiled : gappy.Filed := filed_of_entries (by decide)
  obtain ⟨n, hn⟩ : ∃ n, gappy.get? key = some n := Option.isSome_iff_exists.mp (by decide)
  have hlength : (gappy.runDeterministic key "aa").traversed.length = 3 := by decide
  obtain ⟨hpath, happend⟩ := runDeterministic_longest hfiled hn
  obtain ⟨q, _, _, hrest⟩ := happend "aa" "ab" hlength
  exact ⟨hfiled, hlength, n, q, hn, (hpath "aab" _).mp rfl, hrest⟩

end StateIndex

end AutomatonSketch
