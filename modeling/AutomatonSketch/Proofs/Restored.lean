import AutomatonSketch.Proofs.Replay
import AutomatonSketch.Workspace.Snapshot
import Mathlib.Data.List.Basic

/-! Diagrams read from snapshots. The edits that make up such a diagram lead to it. -/

namespace AutomatonSketch

namespace Snapshot

theorem checkFiling_eq_ok_iff {entries : List (StateKey × Node)} :
    checkFiling entries = .ok () ↔ ∀ entry ∈ entries, entry.1 = entry.2.key := by
  induction entries with
  | nil => exact iff_of_true rfl fun _ h => absurd h List.not_mem_nil
  | cons entry entries ih =>
    rw [List.forall_mem_cons, ← ih, checkFiling]
    split <;> simp [*]

theorem checkNodes_eq_ok_iff {seen : List StateKey} {start : Option StateKey} {nodes : List Node} :
    checkNodes seen start nodes = .ok () ↔ (nodes.map Node.key).Nodup ∧
      (∀ n ∈ nodes, n.key ∉ seen) ∧ start.toList.length + nodes.countP Node.isStart ≤ 1 := by
  induction nodes generalizing seen start with
  | nil => cases start <;> simp [checkNodes]
  | cons n nodes ih =>
    by_cases hseen : n.key ∈ seen
    · simp [checkNodes, hseen]
    · have hkeys : (nodes.map Node.key).Nodup ∧ (∀ m ∈ nodes, m.key ∉ n.key :: seen) ↔
          ((n :: nodes).map Node.key).Nodup ∧ ∀ m ∈ n :: nodes, m.key ∉ seen := by
        simp only [List.map_cons, List.nodup_cons, List.mem_map, List.mem_cons, not_or]
        grind
      rw [← and_assoc, ← hkeys, and_assoc]
      by_cases hstart : n.isStart = true
      · rw [List.countP_cons_of_pos hstart]
        cases start with
        | none => simp [checkNodes, hseen, hstart, ih, Nat.add_comm]
        | some first => simp [checkNodes, hseen, hstart]
      · rw [List.countP_cons_of_neg hstart, ← ih]
        simp [checkNodes, hseen, hstart]

theorem checkEdges_eq_ok_iff {keys : List StateKey} {edges : List Edge} :
    checkEdges keys edges = .ok () ↔ ∀ e ∈ edges, e.sourceKey ∈ keys ∧ e.destinationKey ∈ keys := by
  induction edges with
  | nil => exact iff_of_true rfl fun _ h => absurd h List.not_mem_nil
  | cons e edges ih =>
    rw [List.forall_mem_cons, ← ih, checkEdges]
    split <;> simp [*]

/-- What a snapshot has to satisfy to be restored. -/
structure Accepted (s : Snapshot) : Prop where
  filed : ∀ entry ∈ s.states.entries, entry.1 = entry.2.key
  nodup : (s.nodes.map Node.key).Nodup
  start : s.nodes.countP Node.isStart ≤ 1
  ends : ∀ e ∈ s.edges, e.sourceKey ∈ s.nodes.map Node.key ∧ e.destinationKey ∈ s.nodes.map Node.key

theorem check_eq_ok_iff {s : Snapshot} : s.check = .ok () ↔ s.Accepted := by
  have hsplit : s.check = .ok () ↔ checkFiling s.states.entries = .ok () ∧
      checkNodes [] none s.nodes = .ok () ∧ checkEdges (s.nodes.map Node.key) s.edges = .ok () := by
    cases hfiling : checkFiling s.states.entries <;> cases hnodes : checkNodes [] none s.nodes <;>
      simp [check, hfiling, hnodes, bind, Except.bind]
  rw [hsplit, checkFiling_eq_ok_iff, checkNodes_eq_ok_iff, checkEdges_eq_ok_iff]
  constructor
  · rintro ⟨hfiled, ⟨hnodup, _, hstart⟩, hends⟩
    exact ⟨hfiled, hnodup, by simpa using hstart, hends⟩
  · rintro ⟨hfiled, hnodup, hstart, hends⟩
    exact ⟨hfiled, ⟨hnodup, by simp, by simpa using hstart⟩, hends⟩

theorem restore_eq_ok_iff {s : Snapshot} {d : Diagram} :
    s.restore = .ok d ↔ s.Accepted ∧ s.diagram = d := by
  rw [← check_eq_ok_iff, restore]
  cases s.check <;> simp

end Snapshot

namespace Diagram

theorem nodes_insertNode {d : Diagram} {n : Node} (h : n.key ∉ d.order) :
    (d.insertNode n).nodes = d.nodes ++ [n] := by
  have hold : d.order.filterMap (d.insertNode n).node? = d.order.filterMap d.node? := by
    apply List.filterMap_congr
    intro key hk
    rw [node?_insertNode, if_neg (by rintro rfl; exact h hk)]
  have hnew : (d.insertNode n).node? n.key = some n := by rw [node?_insertNode, if_pos rfl]
  show (d.order ++ [n.key]).filterMap (d.insertNode n).node? = _
  rw [List.filterMap_append, hold, List.filterMap_cons_some hnew, List.filterMap_nil, nodes]

theorem nodes_foldl_insertNode {d : Diagram} {nodes : List Node}
    (hnodup : (nodes.map Node.key).Nodup) (hfresh : ∀ n ∈ nodes, n.key ∉ d.order) :
    (nodes.foldl insertNode d).nodes = d.nodes ++ nodes := by
  induction nodes generalizing d with
  | nil => exact (List.append_nil _).symm
  | cons n nodes ih =>
    obtain ⟨hn, hrest⟩ := List.nodup_cons.mp hnodup
    rw [List.foldl_cons, ih hrest, nodes_insertNode (hfresh n List.mem_cons_self),
      List.append_assoc, List.singleton_append]
    intro m hm hk
    rcases List.mem_append.mp hk with hk | hk
    · exact hfresh m (List.mem_cons_of_mem _ hm) hk
    · exact hn (List.mem_map.mpr ⟨m, hm, List.mem_singleton.mp hk⟩)

theorem mem_keys_foldl_insertNode {d : Diagram} {nodes : List Node} {key : StateKey} :
    key ∈ (nodes.foldl insertNode d).index.keys ↔
      key ∈ d.index.keys ∨ key ∈ nodes.map Node.key := by
  induction nodes generalizing d with
  | nil => simp
  | cons n nodes ih =>
    rw [List.foldl_cons, ih, mem_keys_insertNode, List.map_cons, List.mem_cons]
    tauto

theorem edges_foldl_insertNode (d : Diagram) (nodes : List Node) :
    (nodes.foldl insertNode d).edges = d.edges := by
  induction nodes generalizing d with
  | nil => rfl
  | cons n nodes ih => exact ih (d.insertNode n)

theorem isolated_nodes_pushEdge (d : Diagram) (e : Edge) :
    (d.pushEdge e).nodes.map Node.isolated = d.nodes.map Node.isolated := by
  rw [nodes, nodes, List.map_filterMap, List.map_filterMap]
  apply List.filterMap_congr
  intro key _
  rw [node?_pushEdge]
  split
  · rw [Option.map_map]
    rfl
  · rfl

theorem foldl_pushEdge (d : Diagram) (edges : List Edge) :
    (edges.foldl pushEdge d).nodes.map Node.isolated = d.nodes.map Node.isolated ∧
      (edges.foldl pushEdge d).edges = d.edges ++ edges := by
  induction edges generalizing d with
  | nil => exact ⟨rfl, (List.append_nil _).symm⟩
  | cons e edges ih =>
    obtain ⟨hnodes, hedges⟩ := ih (d.pushEdge e)
    refine ⟨hnodes.trans (d.isolated_nodes_pushEdge e), hedges.trans ?_⟩
    rw [pushEdge, List.append_assoc, List.singleton_append]

theorem ofParts_nil (nodes : List Node) : ofParts nodes [] = nodes.foldl insertNode .empty := by
  have hedges : [] = (nodes.foldl insertNode .empty).edges :=
    (edges_foldl_insertNode .empty nodes).symm
  rw [ofParts, hedges]

end Diagram

namespace Replays

/-- States with keys of their own can be placed one after another, as long as at most one of them
takes the start. -/
theorem placements {d : Diagram} {nodes : List Node} (hnodup : (nodes.map Node.key).Nodup)
    (hfresh : ∀ n ∈ nodes, n.key ∉ d.index.keys)
    (hstart : d.start.toList.length + nodes.countP Node.isStart ≤ 1) :
    Replays (nodes.map fun n => .placeNode n.isolated none) d
      ((nodes.map Node.isolated).foldl Diagram.insertNode d) := by
  induction nodes generalizing d with
  | nil => exact .nil d
  | cons n nodes ih =>
    obtain ⟨hn, hrest⟩ := List.nodup_cons.mp hnodup
    have hkey : n.isolated.key ∉ d.index.keys := hfresh n List.mem_cons_self
    have hfresh' : ∀ m ∈ nodes, m.key ∉ (d.insertNode n.isolated).index.keys := by
      intro m hm hk
      rcases Diagram.mem_keys_insertNode.mp hk with hk | hk
      · exact hn (List.mem_map.mpr ⟨m, hm, hk⟩)
      · exact hfresh m (List.mem_cons_of_mem _ hm) hk
    by_cases hs : n.isStart = true
    · rw [List.countP_cons_of_pos hs] at hstart
      have hnone : d.start = none := by
        cases hd : d.start with
        | none => rfl
        | some key =>
          simp only [hd, Option.toList_some, List.length_singleton] at hstart
          omega
      have hmakes := Edit.Makes.placeStart hkey rfl hs
      have htake : d.takeStart.2 = d := by simp [Diagram.takeStart, hnone]
      rw [hnone, htake] at hmakes
      refine .cons hmakes (ih hrest hfresh' ?_)
      have hstart' : (d.insertNode n.isolated).start = some n.key := if_pos hs
      rw [hstart', Option.toList_some, List.length_singleton]
      omega
    · rw [List.countP_cons_of_neg hs] at hstart
      have hplain : n.isolated.isStart = false := Bool.eq_false_iff.mpr hs
      have hstart' : (d.insertNode n.isolated).start = d.start := if_neg hs
      refine .cons (.placeNode hkey rfl hplain) (ih hrest hfresh' ?_)
      rwa [hstart']

theorem completions {d : Diagram} {edges : List Edge}
    (h : ∀ e ∈ edges, e.sourceKey ∈ d.index.keys ∧ e.destinationKey ∈ d.index.keys) :
    Replays (edges.map .completeEdge) d (edges.foldl Diagram.pushEdge d) := by
  induction edges generalizing d with
  | nil => exact .nil d
  | cons e edges ih =>
    obtain ⟨hsource, hdestination⟩ := h e List.mem_cons_self
    refine .cons (.completeEdge hsource hdestination) (ih ?_)
    intro e' he'
    rw [Diagram.mem_keys_pushEdge, Diagram.mem_keys_pushEdge]
    exact h e' (List.mem_cons_of_mem _ he')

end Replays

namespace Snapshot.Accepted

variable {s : Snapshot}

theorem isolated_nodes (h : s.Accepted) :
    s.diagram.nodes.map Node.isolated = s.nodes.map Node.isolated := by
  have hnodup : ((s.nodes.map Node.isolated).map Node.key).Nodup := by
    rw [List.map_map]
    exact h.nodup
  have hplaced := Diagram.nodes_foldl_insertNode (d := .empty) hnodup fun _ _ => List.not_mem_nil
  have hempty : Diagram.empty.nodes = [] := rfl
  rw [diagram, (Diagram.foldl_pushEdge _ s.edges).1, Diagram.ofParts_nil, hplaced, hempty,
    List.nil_append, List.map_map]
  rfl

theorem edges_eq (s : Snapshot) : s.diagram.edges = s.edges := by
  rw [diagram, (Diagram.foldl_pushEdge _ s.edges).2, Diagram.ofParts_nil,
    Diagram.edges_foldl_insertNode]
  rfl

theorem contents_eq (h : s.Accepted) : History.contents s.diagram =
    s.nodes.map (fun n => .placeNode n.isolated none) ++ s.edges.map .completeEdge := by
  have hnodes := congrArg (List.map fun n => Edit.placeNode n none) h.isolated_nodes
  rw [List.map_map, List.map_map] at hnodes
  rw [History.contents, edges_eq]
  exact congrArg (· ++ _) hnodes

theorem replays (h : s.Accepted) : Replays (History.contents s.diagram) .empty s.diagram := by
  have hplaced : Replays (s.nodes.map fun n => .placeNode n.isolated none) .empty
      (Diagram.ofParts (s.nodes.map Node.isolated) []) := by
    rw [Diagram.ofParts_nil]
    refine .placements h.nodup (fun _ _ => List.not_mem_nil) ?_
    show 0 + s.nodes.countP Node.isStart ≤ 1
    rw [Nat.zero_add]
    exact h.start
  rw [h.contents_eq]
  refine hplaced.append (.completions ?_)
  intro e he
  rw [Diagram.ofParts_nil, Diagram.mem_keys_foldl_insertNode, Diagram.mem_keys_foldl_insertNode,
    List.map_map]
  exact ⟨.inr (h.ends e he).1, .inr (h.ends e he).2⟩

end Snapshot.Accepted

/-- A diagram that was read has a history as one that was drawn does. -/
theorem History.Fits.ofDiagram {s : Snapshot} {d : Diagram} (h : s.restore = .ok d) :
    (History.ofDiagram d).Fits d := by
  obtain ⟨hs, rfl⟩ := Snapshot.restore_eq_ok_iff.mp h
  refine ⟨⟨s.diagram, ?_, rfl⟩, ⟨s.diagram, .nil _⟩⟩
  rw [applied, History.ofDiagram, List.reverse_reverse]
  exact hs.replays

end AutomatonSketch
