import AutomatonSketch.Proofs.EditorRuns

/-! Snapshots restored. A consistent diagram is determined by its states and transitions, so it comes
back from its snapshot as it was; and a snapshot is refused only where no such diagram exists. -/

namespace AutomatonSketch

theorem Node.eq_of_isolated_eq {n m : Node} (h : n.isolated = m.isolated)
    (ho : n.outgoing = m.outgoing) : n = m := by
  cases n
  cases m
  simp only [isolated, mk.injEq] at h ho ⊢
  exact ⟨h.1, ho, h.2.2⟩

theorem Node.start_of_isolated_eq {nodes nodes' : List Node}
    (h : nodes.map isolated = nodes'.map isolated) :
    (nodes.find? isStart).map key = (nodes'.find? isStart).map key := by
  have hfirst := congrArg (fun nodes => (nodes.find? isStart).map key) h
  simp only [List.find?_map, Option.map_map] at hfirst
  exact hfirst

namespace Diagram.Consistent

variable {d d' : Diagram}

theorem keys_of_live (h : d.Consistent) {keys : List StateKey}
    (hlive : ∀ key ∈ keys, key ∈ d.index.keys) : (keys.filterMap d.node?).map Node.key = keys := by
  induction keys with
  | nil => rfl
  | cons key keys ih =>
    obtain ⟨n, hn⟩ := mem_keys.mp (hlive key List.mem_cons_self)
    have hrest := ih fun k hk => hlive k (List.mem_cons_of_mem _ hk)
    rw [List.filterMap_cons_some hn, List.map_cons, h.key_eq key n hn, hrest]

theorem keys_nodes (h : d.Consistent) : d.nodes.map Node.key = d.order :=
  h.keys_of_live fun key hk => (h.mem_order key).mp hk

theorem mem_nodes (h : d.Consistent) {n : Node} : n ∈ d.nodes ↔ d.node? n.key = some n := by
  rw [nodes, List.mem_filterMap]
  constructor
  · rintro ⟨key, _, hn⟩
    rwa [h.key_eq key n hn]
  · intro hn
    exact ⟨n.key, (h.mem_order n.key).mpr (mem_keys.mpr ⟨n, hn⟩), hn⟩

theorem start_eq (h : d.Consistent) : d.start = (d.nodes.find? Node.isStart).map Node.key := by
  have hflagged := congrArg List.head? h.framed.flaggedStarts_eq
  rw [flaggedStarts, List.head?_map, List.head?_filter] at hflagged
  rw [hflagged]
  cases d.start <;> rfl

theorem countP_isStart_le (h : d.Consistent) : d.nodes.countP Node.isStart ≤ 1 := by
  have hflagged := congrArg List.length h.framed.flaggedStarts_eq
  rw [flaggedStarts, List.length_map, ← List.countP_eq_length_filter] at hflagged
  rw [hflagged]
  cases d.start <;> simp

theorem node?_of_isolated_nodes_eq (h : d.Consistent) (h' : d'.Consistent)
    (hnodes : d.nodes.map Node.isolated = d'.nodes.map Node.isolated) (hedges : d.edges = d'.edges)
    {key : StateKey} {n : Node} (hn : d.node? key = some n) : d'.node? key = some n := by
  have hkey := h.key_eq key n hn
  have hmem : n.isolated ∈ d'.nodes.map Node.isolated :=
    hnodes ▸ List.mem_map_of_mem (h.mem_nodes.mpr (hkey.symm ▸ hn))
  obtain ⟨m, hm, hsame⟩ := List.mem_map.mp hmem
  have hmkey : m.key = key := (congrArg Node.key hsame).trans hkey
  have hm' : d'.node? key = some m := hmkey ▸ h'.mem_nodes.mp hm
  -- What a state lists is drawn, and the same transitions are drawn in both.
  have houtgoing : m.outgoing = n.outgoing := by
    apply Table.ext_get?
    intro label
    have hleft := h'.destinations?_eq key m label hm'
    have hright := h.destinations?_eq key n label hn
    rw [← hedges] at hleft
    exact hleft.trans hright.symm
  rw [hm', Node.eq_of_isolated_eq hsame houtgoing]

theorem ext (h : d.Consistent) (h' : d'.Consistent)
    (hnodes : d.nodes.map Node.isolated = d'.nodes.map Node.isolated)
    (hedges : d.edges = d'.edges) : d = d' := by
  have hindex : d.index = d'.index := by
    apply Table.ext_get?
    intro key
    apply Option.ext
    intro n
    exact ⟨h.node?_of_isolated_nodes_eq h' hnodes hedges,
      h'.node?_of_isolated_nodes_eq h hnodes.symm hedges.symm⟩
  have horder : d.order = d'.order := by
    have hkeys := congrArg (List.map Node.key) hnodes
    rw [List.map_map, List.map_map] at hkeys
    exact h.keys_nodes.symm.trans (Eq.trans hkeys h'.keys_nodes)
  have hstart : d.start = d'.start := by
    rw [h.start_eq, h'.start_eq, Node.start_of_isolated_eq hnodes]
  cases d
  cases d'
  simp_all

end Diagram.Consistent

namespace Snapshot

variable {s t : Snapshot}

/-- Nothing tells the snapshots apart but what their states list as destinations and the start that
they name. -/
structure SameDrawing (s t : Snapshot) : Prop where
  states : s.states.entries.map (fun entry => (entry.1, entry.2.isolated)) =
    t.states.entries.map fun entry => (entry.1, entry.2.isolated)
  nodes : s.nodes.map Node.isolated = t.nodes.map Node.isolated
  edges : s.edges = t.edges

theorem checkFiling_isolated (entries : List (StateKey × Node)) :
    checkFiling (entries.map fun entry => (entry.1, entry.2.isolated)) = checkFiling entries := by
  induction entries with
  | nil => rfl
  | cons entry entries ih =>
    have hkey : entry.2.isolated.key = entry.2.key := rfl
    rw [List.map_cons, checkFiling, checkFiling, hkey, ih]

theorem checkNodes_isolated (seen : List StateKey) (start : Option StateKey) (nodes : List Node) :
    checkNodes seen start (nodes.map Node.isolated) = checkNodes seen start nodes := by
  induction nodes generalizing seen start with
  | nil => rfl
  | cons n nodes ih =>
    have hkey : n.isolated.key = n.key := rfl
    have hstart : n.isolated.isStart = n.isStart := rfl
    simp only [List.map_cons, checkNodes, hkey, hstart, ih]

theorem SameDrawing.restore_eq (h : s.SameDrawing t) : s.restore = t.restore := by
  have hkeys : s.nodes.map Node.key = t.nodes.map Node.key := by
    have hh := congrArg (List.map Node.key) h.nodes
    rwa [List.map_map, List.map_map] at hh
  have hcheck : s.check = t.check := by
    rw [check, check, ← checkFiling_isolated s.states.entries, ← checkNodes_isolated _ _ s.nodes,
      h.states, h.nodes, h.edges, hkeys, checkFiling_isolated, checkNodes_isolated]
  have hdiagram : s.diagram = t.diagram := by rw [diagram, diagram, h.nodes, h.edges]
  rw [restore, restore, hcheck, hdiagram]

theorem accepted_iff : s.Accepted ↔
    (∀ entry ∈ s.states.entries, entry.1 = entry.2.key) ∧ (s.nodes.map Node.position).Nodup ∧
      s.nodes.countP Node.isStart ≤ 1 ∧
      ∀ e ∈ s.edges, e.curve.start ∈ s.nodes.map Node.position ∧
        e.curve.finish ∈ s.nodes.map Node.position := by
  have hkeys : s.nodes.map Node.key = (s.nodes.map Node.position).map Coordinate.key := by
    rw [List.map_map]
    rfl
  have hnodup : (s.nodes.map Node.key).Nodup ↔ (s.nodes.map Node.position).Nodup := by
    rw [hkeys, List.nodup_map_iff Coordinate.key_injective]
  have hends (c : Coordinate) : c.key ∈ s.nodes.map Node.key ↔ c ∈ s.nodes.map Node.position := by
    rw [hkeys, List.mem_map_of_injective Coordinate.key_injective]
  constructor
  · intro h
    exact ⟨h.filed, hnodup.mp h.nodup, h.start, fun e he =>
      ⟨(hends _).mp (h.ends e he).1, (hends _).mp (h.ends e he).2⟩⟩
  · rintro ⟨hfiled, hpositions, hstart, hjoined⟩
    exact ⟨hfiled, hnodup.mpr hpositions, hstart, fun e he =>
      ⟨(hends _).mpr (hjoined e he).1, (hends _).mpr (hjoined e he).2⟩⟩

/-- A snapshot is restored exactly if its states are filed under their keys, no two of those listed
share a position, one start is flagged at most, and every transition joins two listed states. The
diagram is then made of the listed states and transitions and nothing else. -/
theorem restore_decides (s : Snapshot) :
    ((∃ d, s.restore = .ok d) ↔
      (∀ entry ∈ s.states.entries, entry.1 = entry.2.key) ∧ (s.nodes.map Node.position).Nodup ∧
        s.nodes.countP Node.isStart ≤ 1 ∧
        ∀ e ∈ s.edges, e.curve.start ∈ s.nodes.map Node.position ∧
          e.curve.finish ∈ s.nodes.map Node.position) ∧
      (∀ d, s.restore = .ok d → d.nodes.map Node.isolated = s.nodes.map Node.isolated ∧
        d.edges = s.edges ∧ d.start = (s.nodes.find? Node.isStart).map Node.key ∧ d.Consistent) ∧
      ∀ t, s.SameDrawing t → t.restore = s.restore := by
  refine ⟨?_, ?_, fun t ht => ht.restore_eq.symm⟩
  · rw [← accepted_iff]
    constructor
    · rintro ⟨d, hd⟩
      exact (restore_eq_ok_iff.mp hd).1
    · exact fun h => ⟨s.diagram, restore_eq_ok_iff.mpr ⟨h, rfl⟩⟩
  · intro d hd
    have hconsistent : d.Consistent := (History.Fits.ofDiagram hd).consistent
    obtain ⟨h, rfl⟩ := restore_eq_ok_iff.mp hd
    have hstart := hconsistent.start_eq.trans (Node.start_of_isolated_eq h.isolated_nodes)
    exact ⟨h.isolated_nodes, Accepted.edges_eq s, hstart, hconsistent⟩

end Snapshot

namespace Diagram.Consistent

variable {d : Diagram}

theorem accepted_capture (h : d.Consistent) (options : WorkspaceOptions) :
    (Snapshot.capture d options).Accepted where
  filed entry he := (h.key_eq entry.1 entry.2 (Table.get?_eq_some_iff.mpr he)).symm
  nodup := by
    show (d.nodes.map Node.key).Nodup
    rw [h.keys_nodes]
    exact h.order_nodup
  start := h.countP_isStart_le
  ends e he := by
    show e.sourceKey ∈ d.nodes.map Node.key ∧ e.destinationKey ∈ d.nodes.map Node.key
    rw [h.keys_nodes, h.mem_order, h.mem_order]
    exact h.ends_mem e he

theorem restore_capture (h : d.Consistent) (options : WorkspaceOptions) :
    (Snapshot.capture d options).restore = .ok d := by
  have haccepted := h.accepted_capture options
  have hrestored := Snapshot.restore_eq_ok_iff.mpr ⟨haccepted, rfl⟩
  have hback := (History.Fits.ofDiagram hrestored).consistent
  rw [hrestored, hback.ext h haccepted.isolated_nodes (Snapshot.Accepted.edges_eq _)]

end Diagram.Consistent

namespace Editor

/-- Restoring a snapshot in any editor leads to the diagram and the settings it was taken of, with a
history of one edit for each state and transition. -/
theorem restore_snapshot_after (options options' : WorkspaceOptions)
    (actions actions' : List Action) :
    let e := after options actions
    let f := after options' actions'
    ∃ restored, f.restore e.snapshot = .ok restored ∧ restored.diagram = e.diagram ∧
      restored.options = e.options ∧ restored.history.redoStack = [] ∧
      restored.history.applied = e.diagram.nodes.map (fun n => .placeNode n.isolated none) ++
        e.diagram.edges.map .completeEdge ∧
      restored.snapshot = e.snapshot := by
  intro e f
  have hd : e.diagram.Consistent := (Fits.after options actions).consistent
  have hrestore : e.snapshot.restore = .ok e.diagram := hd.restore_capture e.options
  refine ⟨{ withOptions e.options with diagram := e.diagram, history := .ofDiagram e.diagram },
    ?_, rfl, rfl, rfl, List.reverse_reverse _, rfl⟩
  simp only [Editor.restore, hrestore]
  rfl

end Editor

end AutomatonSketch
