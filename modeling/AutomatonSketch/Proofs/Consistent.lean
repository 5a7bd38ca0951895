import AutomatonSketch.Diagram.Consistency
import AutomatonSketch.Diagram.Drawing
import AutomatonSketch.Proofs.Entries
import AutomatonSketch.Proofs.Keys

/-! Diagrams whose parts agree. What the states list as destinations is, label by label, the row of
transitions drawn from them, and no edit disturbs this. -/

namespace AutomatonSketch

/-- Where the transitions drawn from a state with a label lead, in order of creation. -/
def drawn (edges : List Edge) (source : StateKey) (label : String) : List StateKey :=
  (edges.filter fun e => e.sourceKey = source ∧ e.label = label).map Edge.destinationKey

theorem drawn_append (edges : List Edge) (e : Edge) (source : StateKey) (label : String) :
    drawn (edges ++ [e]) source label = drawn edges source label ++
      if e.sourceKey = source ∧ e.label = label then [e.destinationKey] else [] := by
  by_cases h : e.sourceKey = source ∧ e.label = label <;> simp [drawn, List.filter_append, h]

theorem drawn_eq_nil {edges : List Edge} {source : StateKey} (h : ∀ e ∈ edges, e.sourceKey ≠ source)
    (label : String) : drawn edges source label = [] := by
  rw [drawn, List.map_eq_nil_iff, List.filter_eq_nil_iff]
  intro e he
  simp [h e he]

namespace Node

theorem destinations?_link (n : Node) (label label' : String) (key : StateKey) :
    (n.link label key).destinations? label' =
      if label = label' then some (n.destinations label ++ [key]) else n.destinations? label' :=
  Table.get?_insert ..

theorem isolated_of_outgoing {n : Node} (h : n.outgoing = .empty) : n.isolated = n := by
  rw [isolated, ← h]

end Node

namespace Diagram

/-- All parts of a diagram agree with one another. -/
structure Consistent (d : Diagram) : Prop where
  order_nodup : d.order.Nodup
  mem_order : ∀ key, key ∈ d.order ↔ key ∈ d.index.keys
  key_eq : ∀ key n, d.node? key = some n → n.key = key
  isStart_iff : ∀ key n, d.node? key = some n → (n.isStart = true ↔ d.start = some key)
  start_mem : ∀ key, d.start = some key → key ∈ d.index.keys
  ends_mem : ∀ e ∈ d.edges, e.sourceKey ∈ d.index.keys ∧ e.destinationKey ∈ d.index.keys
  destinations?_eq : ∀ key n label, d.node? key = some n → n.destinations? label =
    if drawn d.edges key label = [] then none else some (drawn d.edges key label)

/-- All parts of a diagram agree, but for what its states list as destinations. -/
structure Framed (d : Diagram) : Prop where
  order_nodup : d.order.Nodup
  mem_order : ∀ key, key ∈ d.order ↔ key ∈ d.index.keys
  key_eq : ∀ key n, d.node? key = some n → n.key = key
  isStart_iff : ∀ key n, d.node? key = some n → (n.isStart = true ↔ d.start = some key)
  start_mem : ∀ key, d.start = some key → key ∈ d.index.keys
  ends_mem : ∀ e ∈ d.edges, e.sourceKey ∈ d.index.keys ∧ e.destinationKey ∈ d.index.keys

theorem mem_keys {d : Diagram} {key : StateKey} :
    key ∈ d.index.keys ↔ ∃ n, d.node? key = some n := Table.mem_keys

theorem node?_eq_none_iff {d : Diagram} {key : StateKey} :
    d.node? key = none ↔ key ∉ d.index.keys := Table.get?_eq_none_iff

theorem node?_modifyNode (d : Diagram) (key key' : StateKey) (f : Node → Node) :
    (d.modifyNode key f).node? key' = if key = key' then (d.node? key').map f else d.node? key' :=
  Table.get?_modify ..

theorem node?_insertNode (d : Diagram) (n : Node) (key : StateKey) :
    (d.insertNode n).node? key = if n.key = key then some n else d.node? key :=
  Table.get?_insert ..

theorem node?_pushEdge (d : Diagram) (e : Edge) (key : StateKey) :
    (d.pushEdge e).node? key = if e.sourceKey = key then
      (d.node? key).map fun n => n.link e.label e.destinationKey else d.node? key :=
  node?_modifyNode d e.sourceKey key _

theorem mem_keys_insertNode {d : Diagram} {n : Node} {key : StateKey} :
    key ∈ (d.insertNode n).index.keys ↔ key = n.key ∨ key ∈ d.index.keys := Table.mem_keys_insert

theorem mem_keys_modifyNode {d : Diagram} {key key' : StateKey} {f : Node → Node} :
    key' ∈ (d.modifyNode key f).index.keys ↔ key' ∈ d.index.keys := Table.mem_keys_modify

theorem mem_keys_pushEdge {d : Diagram} {e : Edge} {key : StateKey} :
    key ∈ (d.pushEdge e).index.keys ↔ key ∈ d.index.keys := Table.mem_keys_modify

@[simp] theorem takeStart_fst (d : Diagram) : d.takeStart.1 = d.start := by
  unfold takeStart
  split <;> simp [*]

@[simp] theorem takeStart_start (d : Diagram) : d.takeStart.2.start = none := by
  unfold takeStart
  split <;> simp [*]

@[simp] theorem takeStart_order (d : Diagram) : d.takeStart.2.order = d.order := by
  unfold takeStart
  split <;> rfl

@[simp] theorem takeStart_edges (d : Diagram) : d.takeStart.2.edges = d.edges := by
  unfold takeStart
  split <;> rfl

@[simp] theorem mem_keys_takeStart {d : Diagram} {key : StateKey} :
    key ∈ d.takeStart.2.index.keys ↔ key ∈ d.index.keys := by
  unfold takeStart
  split
  · rfl
  · exact Table.mem_keys_modify

namespace Framed

variable {d : Diagram}

theorem start_ne (h : d.Framed) {key : StateKey} (hfresh : key ∉ d.index.keys) :
    d.start ≠ some key := fun he => hfresh (h.start_mem key he)

theorem drawn_of_fresh (h : d.Framed) {key : StateKey} (hfresh : key ∉ d.index.keys)
    (label : String) : drawn d.edges key label = [] := by
  refine drawn_eq_nil ?_ label
  rintro e he rfl
  exact hfresh (h.ends_mem e he).1

theorem node?_takeStart (h : d.Framed) (key : StateKey) :
    d.takeStart.2.node? key = (d.node? key).map fun n => { n with isStart := false } := by
  have hplain {n : Node} (hn : d.node? key = some n) (hs : d.start ≠ some key) :
      { n with isStart := false } = n := by
    have hf : n.isStart = false := by simpa using (not_congr (h.isStart_iff key n hn)).mpr hs
    rw [← hf]
  unfold takeStart
  split
  · rename_i hs
    cases hn : d.node? key with
    | none => rfl
    | some n => rw [Option.map_some, hplain hn (by simp [hs])]
  · rename_i start hs
    show (d.modifyNode start _).node? key = _
    rw [node?_modifyNode]
    split
    · rfl
    · rename_i hne
      cases hn : d.node? key with
      | none => rfl
      | some n => rw [Option.map_some, hplain hn (by simpa [hs] using hne)]

theorem empty : Diagram.empty.Framed := by
  have hnone (key : StateKey) (n : Node) : Diagram.empty.node? key ≠ some n :=
    (Option.some_ne_none n).symm
  constructor
  case order_nodup => exact .nil
  case mem_order => exact fun key => .rfl
  case key_eq => exact fun key n hn => absurd hn (hnone key n)
  case isStart_iff => exact fun key n hn => absurd hn (hnone key n)
  case start_mem => exact fun key hs => absurd hs (Option.some_ne_none key).symm
  case ends_mem => exact fun e he => absurd he List.not_mem_nil

theorem modifyNode (h : d.Framed) (key : StateKey) {f : Node → Node}
    (hf : ∀ n, (f n).position = n.position ∧ (f n).isStart = n.isStart) :
    (d.modifyNode key f).Framed := by
  have hnode {key' : StateKey} {n : Node} (hn : (d.modifyNode key f).node? key' = some n) :
      ∃ m, d.node? key' = some m ∧ m.key = n.key ∧ m.isStart = n.isStart := by
    rw [node?_modifyNode] at hn
    split at hn
    · obtain ⟨m, hm, rfl⟩ := Option.map_eq_some_iff.mp hn
      obtain ⟨hp, hs⟩ := hf m
      exact ⟨m, hm, by rw [Node.key, Node.key, hp], hs.symm⟩
    · exact ⟨n, hn, rfl, rfl⟩
  constructor
  case order_nodup => exact h.order_nodup
  case mem_order => exact fun key' => (h.mem_order key').trans mem_keys_modifyNode.symm
  case key_eq =>
    intro key' n hn
    obtain ⟨m, hm, hk, _⟩ := hnode hn
    exact hk ▸ h.key_eq key' m hm
  case isStart_iff =>
    intro key' n hn
    obtain ⟨m, hm, _, hs⟩ := hnode hn
    exact hs ▸ h.isStart_iff key' m hm
  case start_mem => exact fun key' hs => mem_keys_modifyNode.mpr (h.start_mem key' hs)
  case ends_mem =>
    intro e he
    rw [mem_keys_modifyNode, mem_keys_modifyNode]
    exact h.ends_mem e he

theorem takeStart (h : d.Framed) : d.takeStart.2.Framed := by
  have hnode {key : StateKey} {n : Node} (hn : d.takeStart.2.node? key = some n) :
      ∃ m, d.node? key = some m ∧ { m with isStart := false } = n := by
    rw [h.node?_takeStart] at hn
    exact Option.map_eq_some_iff.mp hn
  constructor
  case order_nodup => exact d.takeStart_order ▸ h.order_nodup
  case mem_order => intro key; rw [takeStart_order, mem_keys_takeStart, h.mem_order]
  case key_eq =>
    intro key n hn
    obtain ⟨m, hm, rfl⟩ := hnode hn
    exact h.key_eq key m hm
  case isStart_iff =>
    intro key n hn
    obtain ⟨m, _, rfl⟩ := hnode hn
    simp
  case start_mem => simp
  case ends_mem =>
    intro e he
    rw [mem_keys_takeStart, mem_keys_takeStart]
    exact h.ends_mem e (d.takeStart_edges ▸ he)

theorem insertNode (h : d.Framed) {n : Node} (hfresh : n.key ∉ d.index.keys)
    (hstart : n.isStart = true → d.start = none) : (d.insertNode n).Framed := by
  have hnode {key : StateKey} {m : Node} (hm : (d.insertNode n).node? key = some m) :
      (n.key = key ∧ n = m) ∨ (n.key ≠ key ∧ d.node? key = some m) := by
    rw [node?_insertNode] at hm
    split at hm
    · exact .inl ⟨‹_›, Option.some.inj hm⟩
    · exact .inr ⟨‹_›, hm⟩
  have hnew := h.start_ne hfresh
  constructor
  case order_nodup =>
    show (d.order ++ [n.key]).Nodup
    have hn : n.key ∉ d.order := fun hk => hfresh ((h.mem_order n.key).mp hk)
    exact List.nodup_append.mpr ⟨h.order_nodup, by simp, by rintro a ha b hb rfl; simp_all⟩
  case mem_order =>
    intro key
    show key ∈ d.order ++ [n.key] ↔ _
    rw [List.mem_append, List.mem_singleton, mem_keys_insertNode, h.mem_order, or_comm]
  case key_eq =>
    intro key m hm
    obtain ⟨hk, rfl⟩ | ⟨_, hm⟩ := hnode hm
    · exact hk
    · exact h.key_eq key m hm
  case isStart_iff =>
    intro key m hm
    show _ ↔ (if n.isStart then some n.key else d.start) = some key
    obtain ⟨rfl, rfl⟩ | ⟨hk, hm⟩ := hnode hm
    · by_cases hs : n.isStart = true <;> simp [hs, hnew]
    · rw [h.isStart_iff key m hm]
      by_cases hs : n.isStart = true
      · simp [hs, hstart hs, hk]
      · simp [hs]
  case start_mem =>
    intro key hs
    rw [mem_keys_insertNode]
    change (if n.isStart then some n.key else d.start) = some key at hs
    split at hs
    · exact .inl (Option.some.inj hs).symm
    · exact .inr (h.start_mem key hs)
  case ends_mem =>
    intro e he
    rw [mem_keys_insertNode, mem_keys_insertNode]
    exact ⟨.inr (h.ends_mem e he).1, .inr (h.ends_mem e he).2⟩

theorem withEdges (h : d.Framed) {edges : List Edge}
    (hends : ∀ e ∈ edges, e.sourceKey ∈ d.index.keys ∧ e.destinationKey ∈ d.index.keys) :
    { d with edges }.Framed :=
  ⟨h.order_nodup, h.mem_order, h.key_eq, h.isStart_iff, h.start_mem, hends⟩

theorem pushEdge (h : d.Framed) {e : Edge} (hsource : e.sourceKey ∈ d.index.keys)
    (hdestination : e.destinationKey ∈ d.index.keys) : (d.pushEdge e).Framed := by
  have hlinked := h.modifyNode e.sourceKey (f := fun n => n.link e.label e.destinationKey)
    fun _ => ⟨rfl, rfl⟩
  refine hlinked.withEdges fun e' he' => ?_
  rw [mem_keys_modifyNode, mem_keys_modifyNode]
  rcases List.mem_append.mp he' with he' | he'
  · exact h.ends_mem e' he'
  · rw [List.mem_singleton.mp he']
    exact ⟨hsource, hdestination⟩

/-- The rest of consistency: what is listed is what is drawn. -/
theorem consistent (h : d.Framed) (hlisted : ∀ key n label, d.node? key = some n →
    n.destinations? label =
      if drawn d.edges key label = [] then none else some (drawn d.edges key label)) :
    d.Consistent :=
  ⟨h.order_nodup, h.mem_order, h.key_eq, h.isStart_iff, h.start_mem, h.ends_mem, hlisted⟩

end Framed

namespace Consistent

variable {d : Diagram}

theorem framed (h : d.Consistent) : d.Framed :=
  ⟨h.order_nodup, h.mem_order, h.key_eq, h.isStart_iff, h.start_mem, h.ends_mem⟩

theorem destinations_eq (h : d.Consistent) {key : StateKey} {n : Node} (hn : d.node? key = some n)
    (label : String) : n.destinations label = drawn d.edges key label := by
  rw [Node.destinations, h.destinations?_eq key n label hn]
  split
  · rename_i he
    rw [he, Option.getD_none]
  · rfl

theorem empty : Diagram.empty.Consistent :=
  Framed.empty.consistent fun _ n _ hn => absurd hn (Option.some_ne_none n).symm

theorem modifyNode (h : d.Consistent) (key : StateKey) {f : Node → Node}
    (hf : ∀ n, (f n).position = n.position ∧ (f n).isStart = n.isStart ∧
      (f n).outgoing = n.outgoing) : (d.modifyNode key f).Consistent := by
  refine (h.framed.modifyNode key fun n => ⟨(hf n).1, (hf n).2.1⟩).consistent ?_
  intro key' n label hn
  rw [node?_modifyNode] at hn
  split at hn
  · obtain ⟨m, hm, rfl⟩ := Option.map_eq_some_iff.mp hn
    rw [Node.destinations?, (hf m).2.2]
    exact h.destinations?_eq key' m label hm
  · exact h.destinations?_eq key' n label hn

theorem takeStart (h : d.Consistent) : d.takeStart.2.Consistent := by
  refine h.framed.takeStart.consistent ?_
  intro key n label hn
  rw [h.framed.node?_takeStart] at hn
  obtain ⟨m, hm, rfl⟩ := Option.map_eq_some_iff.mp hn
  rw [takeStart_edges]
  exact h.destinations?_eq key m label hm

theorem insertNode (h : d.Consistent) {n : Node} (hfresh : n.key ∉ d.index.keys)
    (hbare : n.outgoing = .empty) (hstart : n.isStart = true → d.start = none) :
    (d.insertNode n).Consistent := by
  refine (h.framed.insertNode hfresh hstart).consistent ?_
  intro key m label hm
  show _ = if drawn d.edges key label = [] then none else some (drawn d.edges key label)
  rw [node?_insertNode] at hm
  split at hm
  · rename_i hk
    obtain rfl := Option.some.inj hm
    rw [if_pos (h.framed.drawn_of_fresh (hk ▸ hfresh) label), Node.destinations?, hbare,
      Table.get?_empty]
  · exact h.destinations?_eq key m label hm

theorem pushEdge (h : d.Consistent) {e : Edge} (hsource : e.sourceKey ∈ d.index.keys)
    (hdestination : e.destinationKey ∈ d.index.keys) : (d.pushEdge e).Consistent := by
  refine (h.framed.pushEdge hsource hdestination).consistent ?_
  intro key n label hn
  show _ = if drawn (d.edges ++ [e]) key label = [] then none
    else some (drawn (d.edges ++ [e]) key label)
  rw [drawn_append]
  rw [node?_pushEdge] at hn
  by_cases hk : e.sourceKey = key
  · rw [if_pos hk] at hn
    obtain ⟨m, hm, rfl⟩ := Option.map_eq_some_iff.mp hn
    rw [Node.destinations?_link]
    by_cases hl : e.label = label
    · subst hl
      simp [hk, h.destinations_eq hm]
    · simp [hl, h.destinations?_eq key m label hm]
  · rw [if_neg hk] at hn
    simp [hk, h.destinations?_eq key n label hn]

end Consistent

end Diagram

end AutomatonSketch
