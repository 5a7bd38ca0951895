import AutomatonSketch.Proofs.Verify
import Mathlib.Data.List.Infix
import Mathlib.Data.List.Perm.Subperm

/-! What the check of a diagram decides. It compares how many keys are listed and filed, and looks
up those listed. A key listed twice in the place of one that is not listed would go unnoticed; but
whatever is done to the parts of a diagram, no state is filed without being listed, and so the check
finds nothing exactly if all parts agree. -/

namespace AutomatonSketch

namespace Diagram

section Decides

variable {d : Diagram}

theorem checkListed_eq_ok_iff {key : StateKey} :
    d.checkListed key = .ok () ↔ ∃ n, d.node? key = some n ∧ n.key = key := by
  cases hn : d.node? key with
  | none => simp [checkListed, hn]
  | some n => by_cases hk : n.key = key <;> simp [checkListed, hn, hk]

theorem checkEdge_eq_ok_iff {e : Edge} :
    d.checkEdge e = .ok () ↔ d.Lists e ∧ e.destinationKey ∈ d.index.keys := by
  rw [mem_keys]
  cases hs : d.node? e.sourceKey with
  | none => simp [checkEdge, Lists, hs]
  | some source =>
    cases hd : d.node? e.destinationKey with
    | none => simp [checkEdge, hs, hd]
    | some destination => simp [checkEdge, Lists, hs, hd]

theorem mem_flaggedStarts_iff
    (hlisted : ∀ key ∈ d.order, ∃ n, d.node? key = some n ∧ n.key = key) {key : StateKey} :
    key ∈ d.flaggedStarts ↔ key ∈ d.order ∧ ∃ n, d.node? key = some n ∧ n.isStart = true := by
  simp only [flaggedStarts, nodes, List.mem_map, List.mem_filter, List.mem_filterMap]
  constructor
  · rintro ⟨n, ⟨⟨key', hkey', hn⟩, hflag⟩, rfl⟩
    obtain ⟨m, hm, hk⟩ := hlisted key' hkey'
    obtain rfl : n = m := Option.some.inj (hn.symm.trans hm)
    rw [hk]
    exact ⟨hkey', n, hn, hflag⟩
  · rintro ⟨hkey, n, hn, hflag⟩
    obtain ⟨m, hm, hk⟩ := hlisted key hkey
    obtain rfl : n = m := Option.some.inj (hn.symm.trans hm)
    exact ⟨n, ⟨⟨key, hkey, hn⟩, hflag⟩, hk⟩

theorem framed_of_verify (hok : d.verify = .ok ()) (hnodup : d.order.Nodup) : d.Framed := by
  obtain ⟨hcount, hlisted, hstart, hedges⟩ := verify_eq_ok_iff.mp hok
  have hlisted := fun key hk => checkListed_eq_ok_iff.mp (hlisted key hk)
  have hsub : d.order ⊆ d.index.keys := by
    intro key hk
    obtain ⟨n, hn, _⟩ := hlisted key hk
    exact mem_keys.mpr ⟨n, hn⟩
  have hlength : d.index.keys.length = d.order.length := by rw [Table.length_keys, hcount]
  -- Nothing is listed twice, so as many keys as are filed are all of them.
  have hperm : d.order.Perm d.index.keys :=
    (List.subperm_of_subset hnodup hsub).perm_of_length_le hlength.le
  have horder (key : StateKey) : key ∈ d.order ↔ key ∈ d.index.keys := hperm.mem_iff
  have hflagged (key : StateKey) :
      d.start = some key ↔ key ∈ d.order ∧ ∃ n, d.node? key = some n ∧ n.isStart = true := by
    rw [← mem_flaggedStarts_iff hlisted, hstart, Option.mem_toList]
  constructor
  case order_nodup => exact hnodup
  case mem_order => exact horder
  case key_eq =>
    intro key n hn
    obtain ⟨m, hm, hk⟩ := hlisted key ((horder key).mpr (mem_keys.mpr ⟨n, hn⟩))
    obtain rfl : n = m := Option.some.inj (hn.symm.trans hm)
    exact hk
  case isStart_iff =>
    intro key n hn
    rw [hflagged]
    constructor
    · exact fun hs => ⟨(horder key).mpr (mem_keys.mpr ⟨n, hn⟩), n, hn, hs⟩
    · rintro ⟨_, m, hm, hs⟩
      obtain rfl : n = m := Option.some.inj (hn.symm.trans hm)
      exact hs
  case start_mem => exact fun key hs => hsub ((hflagged key).mp hs).1
  case ends_mem =>
    intro e he
    obtain ⟨⟨source, hsource, _⟩, hdestination⟩ := checkEdge_eq_ok_iff.mp (hedges e he)
    exact ⟨mem_keys.mpr ⟨source, hsource⟩, hdestination⟩

theorem verify_eq_ok_and_nodup_iff :
    d.verify = .ok () ∧ d.order.Nodup ↔ d.Framed ∧ ∀ e ∈ d.edges, d.Lists e := by
  constructor
  · rintro ⟨hok, hnodup⟩
    have hframed := framed_of_verify hok hnodup
    exact ⟨hframed, hframed.verify_eq_ok_iff_lists.mp hok⟩
  · rintro ⟨hframed, hlists⟩
    exact ⟨hframed.verify_eq_ok_iff_lists.mpr hlists, hframed.order_nodup⟩

/-- Where all that is filed is listed, there is no room for a key listed twice. -/
theorem nodup_of_verify (hall : ∀ key ∈ d.index.keys, key ∈ d.order) (hok : d.verify = .ok ()) :
    d.order.Nodup := by
  obtain ⟨hcount, _⟩ := verify_eq_ok_iff.mp hok
  have hlength : d.order.length = d.index.keys.length := by rw [Table.length_keys, hcount]
  have hkeys : d.index.keys.Nodup := Table.nodup_keys d.index
  have hperm := (List.subperm_of_subset hkeys hall).perm_of_length_le hlength.le
  exact hperm.nodup_iff.mp hkeys

end Decides

/-- Everything that can be done to the parts of a diagram, with any arguments and in any order, so
that they need not agree afterwards. -/
inductive Alteration where
  | rebuild (nodes : List Node) (edges : List Edge)
  | clear
  | addNode (position : Coordinate) (isStart : Bool)
  | markFinal (position : Coordinate)
  | completeEdge (pending : Edge) (finish : Coordinate)
  | insertNode (n : Node)
  | popNode (expected : StateKey)
  | takeStart
  | restoreStart (key : StateKey)
  | setFinal (key : StateKey) (isFinal : Bool)
  | pushEdge (e : Edge)
  | appendEdge (e : Edge)
  | popEdge
  | unlink (source destination : StateKey) (label : String) (newest : Bool)
  | setEdgeControl (i : Nat) (control : Coordinate)

/-- An alteration that is refused changes nothing. -/
def alter (d : Diagram) : Alteration → Diagram
  | .rebuild nodes edges => ofParts nodes edges
  | .clear => empty
  | .addNode position isStart =>
    match d.addNode position isStart with
    | .ok (_, d') => d'
    | .error _ => d
  | .markFinal position =>
    match d.markFinal position with
    | .ok (_, d') => d'
    | .error _ => d
  | .completeEdge pending finish =>
    match d.completeEdge pending finish with
    | .ok (_, d') => d'
    | .error _ => d
  | .insertNode n => d.insertNode n
  | .popNode expected => (d.popNode expected).2
  | .takeStart => d.takeStart.2
  | .restoreStart key => (d.restoreStart? key).getD d
  | .setFinal key isFinal => (d.setFinal? key isFinal).getD d
  | .pushEdge e => d.pushEdge e
  | .appendEdge e => { d with edges := d.edges ++ [e] }
  | .popEdge => { d with edges := d.edges.dropLast }
  | .unlink source destination label newest =>
    match d.unlink source destination label newest with
    | .ok d' => d'
    | .error _ => d
  | .setEdgeControl i control => (d.setEdgeControl? i control).getD d

def altered (alterations : List Alteration) : Diagram := alterations.foldl alter empty

/-- Every listed key is that of a coordinate, and every state filed is listed. -/
structure Covered (d : Diagram) : Prop where
  exists_coordinate : ∀ key ∈ d.order, ∃ c : Coordinate, key = c.key
  mem_order : ∀ key ∈ d.index.keys, key ∈ d.order

namespace Covered

variable {d : Diagram}

theorem empty : Diagram.empty.Covered := ⟨nofun, nofun⟩

theorem of_same {d' : Diagram} (h : d.Covered) (horder : d'.order = d.order)
    (hkeys : ∀ key, key ∈ d'.index.keys → key ∈ d.index.keys) : d'.Covered :=
  ⟨horder ▸ h.exists_coordinate, fun key hk => horder ▸ h.mem_order key (hkeys key hk)⟩

theorem modifyNode (h : d.Covered) (key : StateKey) (f : Node → Node) :
    (d.modifyNode key f).Covered :=
  h.of_same rfl fun _ => mem_keys_modifyNode.mp

theorem takeStart (h : d.Covered) : d.takeStart.2.Covered :=
  h.of_same d.takeStart_order fun _ => mem_keys_takeStart.mp

theorem pushEdge (h : d.Covered) (e : Edge) : (d.pushEdge e).Covered :=
  h.of_same rfl fun _ => mem_keys_pushEdge.mp

theorem insertNode (h : d.Covered) (n : Node) : (d.insertNode n).Covered := by
  constructor
  · intro key hk
    rcases List.mem_append.mp hk with hk | hk
    · exact h.exists_coordinate key hk
    · exact ⟨n.position, List.mem_singleton.mp hk⟩
  · intro key hk
    rcases mem_keys_insertNode.mp hk with rfl | hk
    · exact List.mem_append_right _ List.mem_cons_self
    · exact List.mem_append_left _ (h.mem_order key hk)

theorem popNode (h : d.Covered) (expected : StateKey) : (d.popNode expected).2.Covered := by
  by_cases hlast : d.order.getLast? = some expected
  · -- The key that leaves the list is that of a coordinate, so it is also the one that is freed.
    obtain ⟨c, rfl⟩ := h.exists_coordinate expected (List.mem_of_getLast? hlast)
    have hsplit : d.order.dropLast ++ [c.key] = d.order := List.dropLast_append_getLast? _ hlast
    have hnamed : ∀ key ∈ d.order.dropLast, ∃ c : Coordinate, key = c.key :=
      fun key hk => h.exists_coordinate key (List.mem_of_mem_dropLast hk)
    have hkept {key : StateKey} (hk : key ∈ d.index.keys) (hne : key ≠ c.key) :
        key ∈ d.order.dropLast := by
      have hmem := h.mem_order key hk
      rw [← hsplit] at hmem
      exact (List.mem_append.mp hmem).resolve_right fun hlast => hne (List.mem_singleton.mp hlast)
    cases hat : d.index.at? c with
    | none =>
      simp only [Diagram.popNode, hlast, if_true, Coordinate.coordinate_key, StateIndex.delete, hat]
      refine ⟨hnamed, fun key hk => hkept hk ?_⟩
      rintro rfl
      exact node?_eq_none_iff.mp hat hk
    | some n =>
      simp only [Diagram.popNode, hlast, if_true, Coordinate.coordinate_key, StateIndex.delete, hat]
      refine ⟨hnamed, fun key hk => ?_⟩
      obtain ⟨hne, hfiled⟩ := Table.mem_keys_erase.mp hk
      exact hkept hfiled hne
  · simpa only [Diagram.popNode, if_neg hlast] using h

theorem addNode (h : d.Covered) {position : Coordinate} {isStart : Bool} {placement : Placement}
    {d' : Diagram} (hadd : d.addNode position isStart = .ok (placement, d')) : d'.Covered := by
  unfold Diagram.addNode at hadd
  split at hadd
  · exact absurd hadd (by simp)
  · split at hadd
    · obtain ⟨_, rfl⟩ := Prod.mk.inj (Except.ok.inj hadd)
      exact h.takeStart.insertNode _
    · obtain ⟨_, rfl⟩ := Prod.mk.inj (Except.ok.inj hadd)
      exact h.insertNode _

theorem markFinal (h : d.Covered) {position : Coordinate} {n : Node} {d' : Diagram}
    (hmark : d.markFinal position = .ok (n, d')) : d'.Covered := by
  unfold Diagram.markFinal at hmark
  split at hmark
  · exact absurd hmark (by simp)
  · split at hmark
    · exact absurd hmark (by simp)
    · obtain ⟨_, rfl⟩ := Prod.mk.inj (Except.ok.inj hmark)
      exact h.modifyNode _ _

theorem completeEdge (h : d.Covered) {pending e : Edge} {finish : Coordinate} {d' : Diagram}
    (hcomplete : d.completeEdge pending finish = .ok (e, d')) : d'.Covered := by
  unfold Diagram.completeEdge at hcomplete
  split at hcomplete
  · exact absurd hcomplete (by simp)
  · split at hcomplete
    · exact absurd hcomplete (by simp)
    · obtain ⟨_, rfl⟩ := Prod.mk.inj (Except.ok.inj hcomplete)
      exact h.pushEdge _

theorem ofParts (nodes : List Node) (edges : List Edge) : (ofParts nodes edges).Covered := by
  have hfold {d : Diagram} (h : d.Covered) : (nodes.foldl Diagram.insertNode d).Covered := by
    induction nodes generalizing d with
    | nil => exact h
    | cons n nodes ih => exact ih (h.insertNode n)
  exact (hfold empty).of_same rfl fun _ => id

theorem alter (h : d.Covered) (alteration : Alteration) : (d.alter alteration).Covered := by
  cases alteration with
  | rebuild nodes edges => exact ofParts nodes edges
  | clear => exact empty
  | addNode position isStart =>
    simp only [Diagram.alter]
    split
    · exact h.addNode ‹_›
    · exact h
  | markFinal position =>
    simp only [Diagram.alter]
    split
    · exact h.markFinal ‹_›
    · exact h
  | completeEdge pending finish =>
    simp only [Diagram.alter]
    split
    · exact h.completeEdge ‹_›
    · exact h
  | insertNode n => exact h.insertNode n
  | popNode expected => exact h.popNode expected
  | takeStart => exact h.takeStart
  | restoreStart key =>
    cases hn : d.node? key with
    | none => simpa only [Diagram.alter, restoreStart?, hn, Option.getD_none] using h
    | some n =>
      simp only [Diagram.alter, restoreStart?, hn, Option.getD_some]
      exact (h.takeStart.modifyNode key _).of_same rfl fun _ => id
  | setFinal key isFinal =>
    cases hn : d.node? key with
    | none => simpa only [Diagram.alter, setFinal?, hn, Option.getD_none] using h
    | some n =>
      simp only [Diagram.alter, setFinal?, hn, Option.getD_some]
      exact h.modifyNode key _
  | pushEdge e => exact h.pushEdge e
  | appendEdge | popEdge => exact h.of_same rfl fun _ => id
  | unlink source destination label newest =>
    simp only [Diagram.alter]
    split
    · obtain ⟨_, _, _, rfl⟩ := unlink_eq_ok_iff.mp ‹_›
      exact h.modifyNode _ _
    · exact h
  | setEdgeControl i control =>
    cases he : d.edges[i]? with
    | none => simpa only [Diagram.alter, setEdgeControl?, he, Option.getD_none] using h
    | some e =>
      simp only [Diagram.alter, setEdgeControl?, he, Option.getD_some]
      exact h.of_same rfl fun _ => id

theorem altered (alterations : List Alteration) : (altered alterations).Covered := by
  have hrun {d : Diagram} (h : d.Covered) : (alterations.foldl Diagram.alter d).Covered := by
    induction alterations generalizing d with
    | nil => exact h
    | cons alteration alterations ih => exact ih (h.alter alteration)
  exact hrun empty

end Covered

/-- All parts of a diagram agree exactly if the check finds nothing and no key is listed twice; and
whatever was done to the parts, exactly if the check finds nothing. -/
theorem verify_exact :
    (∀ d : Diagram, (d.Framed ∧ ∀ e ∈ d.edges, d.Lists e) ↔ d.verify = .ok () ∧ d.order.Nodup) ∧
      ∀ alterations : List Alteration,
        let d := altered alterations
        d.verify = .ok () ↔ d.Framed ∧ ∀ e ∈ d.edges, d.Lists e := by
  refine ⟨fun d => verify_eq_ok_and_nodup_iff.symm, fun alterations => ?_⟩
  intro d
  have h : d.Covered := Covered.altered alterations
  rw [← verify_eq_ok_and_nodup_iff]
  exact ⟨fun hok => ⟨hok, nodup_of_verify h.mem_order hok⟩, And.left⟩

/-- Two states are filed, and one of them is listed twice in the place of the other. -/
def listedTwice : Diagram :=
  { (empty.insertNode (.place (.of 0 0) false)).insertNode (.place (.of 50 0) false) with
    order := [(Coordinate.of 0 0).key, (Coordinate.of 0 0).key] }

theorem not_verify_exact_listedTwice :
    listedTwice.verify = .ok () ∧
      ¬ (listedTwice.Framed ∧ ∀ e ∈ listedTwice.edges, listedTwice.Lists e) := by
  refine ⟨by decide +kernel, ?_⟩
  rintro ⟨hframed, _⟩
  have hnodup := hframed.order_nodup
  exact absurd hnodup (by decide +kernel)

end Diagram

end AutomatonSketch
