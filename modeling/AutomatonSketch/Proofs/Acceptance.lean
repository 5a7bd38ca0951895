import AutomatonSketch.Proofs.EditorRuns
import AutomatonSketch.Proofs.Search

/-! What is drawn is what is tested. The tests see only the destinations that states list; in a
consistent diagram they answer for the transitions themselves. -/

namespace AutomatonSketch

namespace Diagram

/-- Routes along transitions, with the characters they consume. -/
inductive Route (d : Diagram) : StateKey → List Char → List Edge → StateKey → Prop
  | stop (key : StateKey) : Route d key [] [] key
  | read {e : Edge} {c : Char} {cs : List Char} {route : List Edge} {last : StateKey}
      (he : e ∈ d.edges) (hlabel : e.label = charLabel c)
      (hrest : Route d e.destinationKey cs route last) :
      Route d e.sourceKey (c :: cs) (e :: route) last
  | free {e : Edge} {cs : List Char} {route : List Edge} {last : StateKey}
      (he : e ∈ d.edges) (hlabel : e.label = epsilon)
      (hrest : Route d e.destinationKey cs route last) :
      Route d e.sourceKey cs (e :: route) last

def EndsFinal (d : Diagram) (last : StateKey) : Prop :=
  ∃ n, d.node? last = some n ∧ n.isFinal = true

/-- Some route from the start state consumes the input and ends in a final state. -/
def Accepts (d : Diagram) (input : List Char) : Prop :=
  ∃ start route last, d.start = some start ∧ d.Route start input route last ∧ d.EndsFinal last

/-- The transition drawn first among those that leave a state with a character. -/
def firstEdge? (d : Diagram) (key : StateKey) (c : Char) : Option Edge :=
  d.edges.find? fun e => e.sourceKey = key ∧ e.label = charLabel c

/-- Where the transitions drawn first lead; `none` where there is none to take. -/
def firstRoute? (d : Diagram) (key : StateKey) : List Char → Option StateKey
  | [] => some key
  | c :: cs => (d.firstEdge? key c).bind fun e => d.firstRoute? e.destinationKey cs

def AcceptsFirst (d : Diagram) (input : List Char) : Prop :=
  ∃ start last, d.start = some start ∧ d.firstRoute? start input = some last ∧ d.EndsFinal last

namespace Consistent

variable {d : Diagram} {key : StateKey} {n : Node}

theorem filed (h : d.Consistent) : d.index.Filed := h.key_eq

theorem exists_destination (h : d.Consistent) {e : Edge} (he : e ∈ d.edges) :
    ∃ n, d.node? e.destinationKey = some n := mem_keys.mp (h.ends_mem e he).2

/-- One step of the simulation: a move in the index is a transition of the diagram. -/
theorem mem_successors (h : d.Consistent) (hn : d.node? key = some n) {label : String} {m : Node} :
    m ∈ d.index.successors n label ↔ ∃ e ∈ d.edges,
      e.sourceKey = key ∧ e.label = label ∧ d.node? e.destinationKey = some m := by
  rw [StateIndex.successors, h.destinations_eq hn, List.mem_filterMap]
  constructor
  · rintro ⟨next, hnext, hm⟩
    obtain ⟨e, he, rfl⟩ := List.mem_map.mp hnext
    obtain ⟨he, hleaves⟩ := List.mem_filter.mp he
    obtain ⟨hsource, hlabel⟩ := of_decide_eq_true hleaves
    exact ⟨e, he, hsource, hlabel, hm⟩
  · rintro ⟨e, he, hsource, hlabel, hm⟩
    refine ⟨e.destinationKey, List.mem_map_of_mem (List.mem_filter.mpr ⟨he, ?_⟩), hm⟩
    exact decide_eq_true ⟨hsource, hlabel⟩

theorem route_of_accepting (h : d.Consistent) {s : Situation} {path : List Node}
    (hrun : d.index.Accepting s path) (hs : d.node? s.1.key = some s.1) :
    ∃ route last, d.Route s.1.key s.2 route last ∧ d.EndsFinal last := by
  induction hrun with
  | @stop n hfinal => exact ⟨[], n.key, .stop _, n, hs, hfinal⟩
  | @move s t path hmove _ ih =>
    obtain ⟨n, cs⟩ := s
    rcases StateIndex.mem_moves.mp hmove with ⟨c, rest, rfl, m, hm, rfl⟩ | ⟨m, hm, rfl⟩
    · obtain ⟨e, he, hsource, hlabel, hnext⟩ := (h.mem_successors hs).mp hm
      have hkey := h.key_eq _ m hnext
      obtain ⟨route, last, hroute, hlast⟩ := ih (hkey.symm ▸ hnext)
      exact ⟨e :: route, last, hsource ▸ .read he hlabel (hkey ▸ hroute), hlast⟩
    · obtain ⟨e, he, hsource, hlabel, hnext⟩ := (h.mem_successors hs).mp hm
      have hkey := h.key_eq _ m hnext
      obtain ⟨route, last, hroute, hlast⟩ := ih (hkey.symm ▸ hnext)
      exact ⟨e :: route, last, hsource ▸ .free he hlabel (hkey ▸ hroute), hlast⟩

theorem accepting_of_route (h : d.Consistent) {cs : List Char} {route : List Edge}
    {last : StateKey} (hroute : d.Route key cs route last) (hlast : d.EndsFinal last)
    (hn : d.node? key = some n) : ∃ path, d.index.Accepting (n, cs) path := by
  induction hroute generalizing n with
  | stop key =>
    obtain ⟨m, hm, hfinal⟩ := hlast
    obtain rfl := Option.some.inj (hn.symm.trans hm)
    exact ⟨[n], .stop hfinal⟩
  | @read e c cs route last he hlabel _ ih =>
    obtain ⟨m, hm⟩ := h.exists_destination he
    obtain ⟨path, hrun⟩ := ih hlast hm
    have hmem : m ∈ d.index.successors n (charLabel c) :=
      (h.mem_successors hn).mpr ⟨e, he, rfl, hlabel, hm⟩
    exact ⟨n :: path, .move (StateIndex.mem_moves.mpr (.inl ⟨c, cs, rfl, m, hmem, rfl⟩)) hrun⟩
  | @free e cs route last he hlabel _ ih =>
    obtain ⟨m, hm⟩ := h.exists_destination he
    obtain ⟨path, hrun⟩ := ih hlast hm
    have hmem : m ∈ d.index.successors n epsilon :=
      (h.mem_successors hn).mpr ⟨e, he, rfl, hlabel, hm⟩
    exact ⟨n :: path, .move (StateIndex.mem_moves.mpr (.inr ⟨m, hmem, rfl⟩)) hrun⟩

theorem runNondeterministic_accepted (h : d.Consistent) {start : StateKey}
    (hstart : d.start = some start) (input : String) :
    (d.index.runNondeterministic start input).accepted = true ↔ d.Accepts input.toList := by
  obtain ⟨n, hn⟩ := mem_keys.mp (h.start_mem start hstart)
  have hkey := h.key_eq start n hn
  rw [StateIndex.runNondeterministic_accepted_iff h.filed hn]
  constructor
  · rintro ⟨path, hrun⟩
    obtain ⟨route, last, hroute, hlast⟩ := h.route_of_accepting hrun (hkey.symm ▸ hn)
    exact ⟨start, route, last, hstart, hkey ▸ hroute, hlast⟩
  · rintro ⟨start', route, last, hstart', hroute, hlast⟩
    obtain rfl := Option.some.inj (hstart.symm.trans hstart')
    exact h.accepting_of_route hroute hlast hn

theorem next?_eq (h : d.Consistent) (hn : d.node? key = some n) (c : Char) :
    d.index.next? n c = (d.firstEdge? key c).bind fun e => d.node? e.destinationKey := by
  rw [StateIndex.next?, h.destinations_eq hn, drawn, List.head?_map, List.head?_filter, firstEdge?,
    Option.bind_map]
  rfl

theorem follow_accepted (h : d.Consistent) (hn : d.node? key = some n) (cs : List Char) :
    (d.index.follow n cs).accepted = true ↔
      ∃ last, d.firstRoute? key cs = some last ∧ d.EndsFinal last := by
  induction cs generalizing key n with
  | nil => simp [StateIndex.follow, firstRoute?, EndsFinal, hn]
  | cons c cs ih =>
    rw [StateIndex.follow, h.next?_eq hn, firstRoute?]
    cases hfirst : d.firstEdge? key c with
    | none => simp
    | some e =>
      obtain ⟨m, hm⟩ := h.exists_destination (List.mem_of_find?_eq_some hfirst)
      simp only [Option.bind_some, hm]
      exact ih hm

theorem runDeterministic_accepted (h : d.Consistent) {start : StateKey}
    (hstart : d.start = some start) (input : String) :
    (d.index.runDeterministic start input).accepted = true ↔ d.AcceptsFirst input.toList := by
  obtain ⟨n, hn⟩ := mem_keys.mp (h.start_mem start hstart)
  have hindex : d.index.get? start = some n := hn
  simp only [StateIndex.runDeterministic, hindex, h.follow_accepted hn, AcceptsFirst]
  constructor
  · rintro ⟨last, hroute, hlast⟩
    exact ⟨start, last, hstart, hroute, hlast⟩
  · rintro ⟨start', last, hstart', hroute, hlast⟩
    obtain rfl := Option.some.inj (hstart.symm.trans hstart')
    exact ⟨last, hroute, hlast⟩

end Consistent

end Diagram

namespace Editor

theorem stringCheck_accepted_after (options : WorkspaceOptions) (actions : List Action)
    {start : StateKey} (hstart : (after options actions).diagram.start = some start)
    (input : String) :
    let e := after options actions
    let answer := (e.stringCheck (some input)).run.accepted
    (e.options.kind = .nfa →
      (answer = some true ↔ e.diagram.Accepts input.toList) ∧
        (answer = some false ↔ ¬ e.diagram.Accepts input.toList)) ∧
      (e.options.kind = .dfa → e.options.strict = false →
        (answer = some true ↔ e.diagram.AcceptsFirst input.toList) ∧
          (answer = some false ↔ ¬ e.diagram.AcceptsFirst input.toList)) := by
  intro e answer
  have hd : e.diagram.Consistent := (Fits.after options actions).consistent
  constructor
  · intro hkind
    have hanswer : answer = some (e.diagram.index.runNondeterministic start input).accepted := by
      simp [answer, StringCheck.run, stringCheck, CheckedString.ofTest, hkind, hstart, e]
    rw [hanswer, ← hd.runNondeterministic_accepted hstart]
    simp
  · intro hkind hstrict
    have hanswer : answer = some (e.diagram.index.runDeterministic start input).accepted := by
      simp [answer, StringCheck.run, stringCheck, CheckedString.ofTest, hkind, hstrict, hstart, e]
    rw [hanswer, ← hd.runDeterministic_accepted hstart]
    simp

/-- A loop, a transition with the same label drawn after it, and an epsilon cycle. -/
def loopDrawn : List Action :=
  [.setMode .addingStartNode, .click (.of 0 0), .click (.of 200 0), .setMode .addingFinalNode,
    .click (.of 200 0), .setMode .placingEdgeStart, .click (.of 0 0), .click (.of 0 0), .undo,
    .click (.of 0 0), .click (.of 0 0), .click (.of 0 0), .click (.of 200 0), .undo, .redo,
    .setMode .placingEpsilonEdgeStart, .click (.of 200 0), .click (.of 0 0)]

theorem stringCheck_accepted_after_loopDrawn :
    let nfa := after ⟨.nfa, ["a", "b"], false, true, "a"⟩ loopDrawn
    let dfa := after .initial loopDrawn
    (nfa.diagram.start = some (Coordinate.of 0 0).key ∧ nfa.diagram.Accepts "aa".toList) ∧
      dfa.diagram.start = some (Coordinate.of 0 0).key ∧
        ¬ dfa.diagram.AcceptsFirst "aa".toList := by
  intro nfa dfa
  have hnfa : nfa.diagram.start = some (Coordinate.of 0 0).key := by decide
  have hdfa : dfa.diagram.start = some (Coordinate.of 0 0).key := by decide
  have hsome := (stringCheck_accepted_after _ loopDrawn hnfa "aa").1 (by decide)
  have hfirst := (stringCheck_accepted_after _ loopDrawn hdfa "aa").2 (by decide) (by decide)
  exact ⟨⟨hnfa, hsome.1.mp (by decide)⟩, hdfa, hfirst.2.mp (by decide)⟩

end Editor

end AutomatonSketch
