import AutomatonSketch.Proofs.Agreement
import AutomatonSketch.Proofs.EditorRuns
import Mathlib.Data.List.Dedup

/-! What strict checking lets through. A state passes if it serves every entry of the alphabet and
has one label besides for each entry that is listed again: none, if no entry is. -/

namespace AutomatonSketch

/-- How many entries repeat another one. -/
def Alphabet.repeats (alphabet : List String) : Nat := alphabet.length - alphabet.dedup.length

theorem Alphabet.repeats_eq_zero_iff {alphabet : List String} :
    repeats alphabet = 0 ↔ alphabet.Nodup := by
  have hsub : alphabet.dedup.Sublist alphabet := List.dedup_sublist alphabet
  have hle : alphabet.dedup.length ≤ alphabet.length := hsub.length_le
  rw [← List.dedup_eq_self, repeats]
  constructor
  · intro h
    exact hsub.eq_of_length_le (by omega)
  · intro h
    rw [h, Nat.sub_self]

namespace Node

variable {n : Node} {alphabet : List String}

/-- There is one destination for every entry of the alphabet. -/
def Serves (n : Node) (alphabet : List String) : Prop :=
  ∀ label ∈ alphabet, ∃ next, n.destinations label = [next]

/-- The labels of a state that are not in the alphabet. -/
def foreign (n : Node) (alphabet : List String) : List String :=
  n.outgoing.keys.filter (· ∉ alphabet)

/-- One destination for every entry of the alphabet, and none for any other label. -/
structure Complete (n : Node) (alphabet : List String) : Prop where
  serves : n.Serves alphabet
  only : ∀ label, label ∉ alphabet → n.destinations label = []

theorem mem_keys_of_destinations {label : String} {next : StateKey} {listed : List StateKey}
    (h : n.destinations label = next :: listed) : label ∈ n.outgoing.keys := by
  by_contra hnot
  have hnone : n.destinations? label = none := Table.get?_eq_none_iff.mpr hnot
  rw [destinations, hnone, Option.getD_none] at h
  exact List.cons_ne_nil _ _ h.symm

theorem Serves.size_eq (h : n.Serves alphabet) :
    n.outgoing.size = alphabet.dedup.length + (n.foreign alphabet).length := by
  -- A label is filed once, however often the alphabet lists it.
  have hserved : (n.outgoing.keys.filter (· ∈ alphabet)).Perm alphabet.dedup := by
    apply (List.perm_ext_iff_of_nodup (n.outgoing.nodup_keys.filter _)
      (List.nodup_dedup alphabet)).mpr
    intro label
    rw [List.mem_filter, List.mem_dedup, decide_eq_true_iff]
    constructor
    · exact fun hmem => hmem.2
    · intro hlabel
      obtain ⟨next, hnext⟩ := h label hlabel
      exact ⟨mem_keys_of_destinations hnext, hlabel⟩
  have hsplit := n.outgoing.keys.length_eq_length_filter_add (· ∈ alphabet)
  have hkeys : n.outgoing.keys.length = n.outgoing.size := List.length_map _
  simpa only [hkeys, hserved.length_eq, foreign, decide_not] using hsplit

theorem Serves.size_eq_iff (h : n.Serves alphabet) :
    n.outgoing.size = alphabet.length ↔
      (n.foreign alphabet).length = Alphabet.repeats alphabet := by
  have hle : alphabet.dedup.length ≤ alphabet.length := (List.dedup_sublist alphabet).length_le
  rw [h.size_eq, Alphabet.repeats]
  omega

theorem serves_iff : n.Serves alphabet ↔ ∀ label ∈ alphabet, ∃ next,
    n.destinations? label = some [next] := by
  refine forall₂_congr fun label _ => exists_congr fun next => ?_
  cases hlisted : n.destinations? label <;> simp [destinations, hlisted]

theorem foreign_eq_nil_iff (htidy : ∀ label, n.destinations? label ≠ some []) :
    n.foreign alphabet = [] ↔ ∀ label, label ∉ alphabet → n.destinations label = [] := by
  rw [foreign, List.filter_eq_nil_iff]
  constructor
  · intro h label hlabel
    have hkey : label ∉ n.outgoing.keys := fun hmem => h label hmem (decide_eq_true hlabel)
    have hnone : n.destinations? label = none := Table.get?_eq_none_iff.mpr hkey
    rw [destinations, hnone, Option.getD_none]
  · intro h label hmem hforeign
    obtain ⟨listed, hlisted⟩ := Table.mem_keys.mp hmem
    have hnil : listed = [] := by
      simpa [destinations, destinations?, hlisted] using h label (of_decide_eq_true hforeign)
    exact htidy label (hnil ▸ hlisted)

end Node

namespace StateIndex

variable {states : StateIndex} {alphabet : List String}

def Complete (states : StateIndex) (alphabet : List String) : Prop :=
  ∀ key n, states.get? key = some n → n.Complete alphabet

/-- No label is listed without a destination. -/
def Tidy (states : StateIndex) : Prop :=
  ∀ key n label, states.get? key = some n → n.destinations? label ≠ some []

theorem isValidDfa_iff_foreign : states.isValidDfa alphabet = true ↔
    ∀ key n, states.get? key = some n →
      n.Serves alphabet ∧ (n.foreign alphabet).length = Alphabet.repeats alphabet := by
  rw [isValidDfa_iff]
  refine forall₃_congr fun key n _ => ?_
  rw [and_comm, ← Node.serves_iff]
  exact and_congr_right Node.Serves.size_eq_iff

theorem isValidDfa_iff_complete (htidy : states.Tidy) (hnodup : alphabet.Nodup) :
    states.isValidDfa alphabet = true ↔ states.Complete alphabet := by
  rw [isValidDfa_iff_foreign, Alphabet.repeats_eq_zero_iff.mpr hnodup]
  refine forall₃_congr fun key n hn => ?_
  rw [List.length_eq_zero_iff, Node.foreign_eq_nil_iff fun label => htidy key n label hn]
  exact ⟨fun h => ⟨h.1, h.2⟩, fun h => ⟨h.serves, h.only⟩⟩

/-- An entry that is listed again makes room for a label that is not in the alphabet. -/
theorem exists_foreign (hvalid : states.isValidDfa alphabet = true) (hrepeats : ¬ alphabet.Nodup)
    {key : StateKey} {n : Node} (hn : states.get? key = some n) :
    ∃ label ∈ n.outgoing.keys, label ∉ alphabet := by
  obtain ⟨_, hlength⟩ := isValidDfa_iff_foreign.mp hvalid key n hn
  have hne : n.foreign alphabet ≠ [] := by
    intro hnil
    rw [hnil, List.length_nil] at hlength
    exact hrepeats (Alphabet.repeats_eq_zero_iff.mp hlength.symm)
  obtain ⟨label, hlabel⟩ := List.exists_mem_of_ne_nil _ hne
  obtain ⟨hmem, hforeign⟩ := List.mem_filter.mp hlabel
  exact ⟨label, hmem, of_decide_eq_true hforeign⟩

end StateIndex

namespace Diagram.Consistent

variable {d : Diagram} {alphabet : List String}

theorem tidy (h : d.Consistent) : d.index.Tidy := by
  intro key n label hn hlisted
  rw [h.destinations?_eq key n label hn] at hlisted
  split at hlisted
  · exact absurd hlisted (by simp)
  · rename_i hdrawn
    exact hdrawn (Option.some.inj hlisted)

theorem exists_edge (h : d.Consistent) {key : StateKey} {n : Node} (hn : d.node? key = some n)
    {label : String} (hlabel : label ∈ n.outgoing.keys) :
    ∃ e ∈ d.edges, e.sourceKey = key ∧ e.label = label := by
  obtain ⟨listed, hlisted⟩ := Table.mem_keys.mp hlabel
  have hdrawn : drawn d.edges key label ≠ [] := by
    intro hnil
    have hnone := h.destinations?_eq key n label hn
    rw [if_pos hnil, Node.destinations?, hlisted] at hnone
    exact Option.some_ne_none _ hnone
  obtain ⟨next, hnext⟩ := List.exists_mem_of_ne_nil _ hdrawn
  obtain ⟨e, he, _⟩ := List.mem_map.mp hnext
  obtain ⟨hmem, hleaves⟩ := List.mem_filter.mp he
  exact ⟨e, hmem, of_decide_eq_true hleaves⟩

theorem label_mem (h : d.Consistent) (hcomplete : d.index.Complete alphabet) {e : Edge}
    (he : e ∈ d.edges) : e.label ∈ alphabet := by
  obtain ⟨n, hn⟩ := mem_keys.mp (h.ends_mem e he).1
  by_contra hforeign
  have hnone := (hcomplete _ n hn).only e.label hforeign
  rw [h.destinations_eq hn, drawn, List.map_eq_nil_iff, List.filter_eq_nil_iff] at hnone
  exact hnone e he (decide_eq_true ⟨rfl, rfl⟩)

end Diagram.Consistent

theorem StringCheck.isSome_accepted_iff {check : StringCheck} (hstrict : check.strict = true)
    (hkind : check.kind = .dfa) : check.run.accepted.isSome = true ↔
      check.states.isValidDfa check.alphabet = true ∧ check.start.isSome = true ∧
        check.input.isSome = true := by
  by_cases hvalid : check.states.isValidDfa check.alphabet = true
  · cases hstart : check.start <;> cases hinput : check.input <;>
      simp [run, hstrict, hkind, hvalid, hstart, hinput, CheckedString.untested,
        CheckedString.ofTest]
  · simp [run, hstrict, hkind, hvalid]

namespace Editor

/-- A diagram is valid for an alphabet without repeats exactly if it is complete; a strict check that
gives a verdict has then seen no other label. With repeats every state of a valid diagram has one. -/
theorem strict_check_after (options : WorkspaceOptions) (actions : List Action)
    (input : Option String) :
    let e := after options actions
    let check := e.stringCheck input
    let valid := check.states.isValidDfa check.alphabet = true
    (valid ↔ ∀ key n, check.states.get? key = some n → n.Serves check.alphabet ∧
        (n.foreign check.alphabet).length = Alphabet.repeats check.alphabet) ∧
      (check.alphabet.Nodup → (valid ↔ check.states.Complete check.alphabet)) ∧
      (¬ check.alphabet.Nodup → valid → ∀ key n, check.states.get? key = some n →
        ∃ edge ∈ e.diagram.edges, edge.sourceKey = key ∧ edge.label ∉ check.alphabet) ∧
      (check.strict = true → check.kind = .dfa →
        (check.run.accepted.isSome = true ↔
          valid ∧ check.start.isSome = true ∧ check.input.isSome = true) ∧
        (check.run.accepted.isSome = true → check.alphabet.Nodup →
          ∀ edge ∈ e.diagram.edges, edge.label ∈ check.alphabet)) := by
  intro e check valid
  have hd : e.diagram.Consistent := (Fits.after options actions).consistent
  have hcomplete (hnodup : check.alphabet.Nodup) : valid ↔ check.states.Complete check.alphabet :=
    StateIndex.isValidDfa_iff_complete hd.tidy hnodup
  refine ⟨StateIndex.isValidDfa_iff_foreign, hcomplete, ?_, ?_⟩
  · intro hrepeats hvalid key n hn
    obtain ⟨label, hlabel, hforeign⟩ := StateIndex.exists_foreign hvalid hrepeats hn
    obtain ⟨edge, hedge, hsource, rfl⟩ := hd.exists_edge hn hlabel
    exact ⟨edge, hedge, hsource, hforeign⟩
  · intro hstrict hkind
    have hverdict := StringCheck.isSome_accepted_iff hstrict hkind
    refine ⟨hverdict, ?_⟩
    intro haccepted hnodup edge hedge
    exact hd.label_mem ((hcomplete hnodup).mp (hverdict.mp haccepted).1) hedge

/-- One state with two loops, where the alphabet lists the label of the first loop twice. -/
def loopsTwice : Snapshot :=
  let origin := Coordinate.of 0 0
  let n : Node := ⟨origin, .ofList [("a", [origin.key]), ("b", [origin.key])], true, true⟩
  ⟨some 0, some origin.key, .ofList [(origin.key, n)], [n],
    [⟨.degenerate origin, "a"⟩, ⟨.degenerate origin, "b"⟩], ⟨.dfa, ["a", "a"], true, true, "a"⟩⟩

theorem not_complete_loopsTwice :
    let e := after .initial [.restore loopsTwice]
    let check := e.stringCheck (some "b")
    check.strict = true ∧ check.kind = .dfa ∧ check.run.accepted = some true ∧
      check.states.isValidDfa check.alphabet = true ∧ ¬ check.states.Complete check.alphabet ∧
      ∃ edge ∈ e.diagram.edges, edge.label ∉ check.alphabet := by
  intro e check
  have hd : e.diagram.Consistent := (Fits.after .initial [.restore loopsTwice]).consistent
  have hforeign : ∃ edge ∈ e.diagram.edges, edge.label ∉ check.alphabet := by decide
  refine ⟨by decide, by decide, by decide, by decide, ?_, hforeign⟩
  intro hcomplete
  obtain ⟨edge, hedge, hlabel⟩ := hforeign
  exact hlabel (hd.label_mem hcomplete hedge)

end Editor

end AutomatonSketch
