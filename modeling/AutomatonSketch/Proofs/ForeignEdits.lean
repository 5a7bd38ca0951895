import AutomatonSketch.History.Edit
import AutomatonSketch.Proofs.Listings
import Mathlib.Data.List.Infix

/-! Edits that were never made on a diagram. Made again or taken back there, each finds its place or
leaves the diagram as it is. -/

namespace AutomatonSketch

namespace Edit

/-- What the edit would add or mark can be there. -/
def HasRoom (d : Diagram) : Edit → Prop
  | placeNode n _ => n.key ∉ d.index.keys
  | completeEdge e => e.sourceKey ∈ d.index.keys ∧ e.destinationKey ∈ d.index.keys
  | markFinal key => key ∈ d.index.keys

/-- What the edit would have made last is there. -/
def IsLatest (d : Diagram) : Edit → Prop
  | placeNode n _ => d.order.getLast? = some n.key
  | completeEdge e => ∃ live, d.edges.getLast? = some live ∧ live.curve.start = e.curve.start ∧
      live.curve.finish = e.curve.finish ∧ live.label = e.label
  | markFinal key => key ∈ d.index.keys

def PlacesNode : Edit → Prop
  | placeNode _ _ => True
  | completeEdge _ | markFinal _ => False

end Edit

namespace Diagram

variable {d : Diagram}

theorem setFinal?_of_live {key : StateKey} (h : key ∈ d.index.keys) (isFinal : Bool) :
    d.setFinal? key isFinal = some (d.modifyNode key fun n => { n with isFinal }) := by
  obtain ⟨n, hn⟩ := mem_keys.mp h
  simp only [setFinal?, hn]

theorem setFinal?_of_not_live {key : StateKey} (h : key ∉ d.index.keys) (isFinal : Bool) :
    d.setFinal? key isFinal = none := by
  simp only [setFinal?, node?_eq_none_iff.mpr h]

theorem reapply_of_not_hasRoom {edit : Edit} (h : ¬ edit.HasRoom d) :
    d.reapply edit = (none, d) := by
  cases edit with
  | placeNode n replaced =>
    obtain ⟨m, hm⟩ := mem_keys.mp (not_not.mp h)
    have hat : d.nodeAt? n.position = some m := hm
    simp only [reapply, hat]
  | completeEdge e =>
    by_cases hsource : e.sourceKey ∈ d.index.keys
    · have hnone := node?_eq_none_iff.mpr fun hdestination => h ⟨hsource, hdestination⟩
      obtain ⟨n, hn⟩ := mem_keys.mp hsource
      simp only [reapply, hn, hnone]
    · simp only [reapply, node?_eq_none_iff.mpr hsource]
  | markFinal key => simp only [reapply, setFinal?_of_not_live h]

theorem revert_of_not_isLatest {edit : Edit} (hother : ¬ edit.IsLatest d) :
    d.revert edit = (none, d) := by
  cases edit with
  | placeNode n replaced =>
    have hlast : ¬ d.order.getLast? = some n.key := hother
    simp only [revert, popNode, if_neg hlast]
  | completeEdge e =>
    cases hlast : d.edges.getLast? with
    | none => simp only [revert, hlast]
    | some live =>
      have hends := fun hsame => hother ⟨live, hlast, hsame⟩
      simp only [revert, hlast, if_neg hends]
  | markFinal key => simp only [revert, setFinal?_of_not_live hother]

namespace Consistent

theorem reapply (h : d.Consistent) {edit : Edit} (hroom : edit.HasRoom d) :
    (d.reapply edit).1.isSome = true ∧ (d.reapply edit).2.Consistent := by
  cases edit with
  | placeNode n replaced =>
    have hat : d.nodeAt? n.position = none := node?_eq_none_iff.mpr hroom
    by_cases hs : n.isStart = true
    · have hfresh : n.isolated.key ∉ d.takeStart.2.index.keys := by
        rwa [mem_keys_takeStart]
      simp only [Diagram.reapply, hat, if_pos hs]
      exact ⟨rfl, h.takeStart.insertNode hfresh rfl (by simp)⟩
    · simp only [Diagram.reapply, hat, if_neg hs]
      exact ⟨rfl, h.insertNode (n := n.isolated) hroom rfl fun hstart => absurd hstart hs⟩
  | completeEdge e =>
    obtain ⟨source, hsource⟩ := mem_keys.mp hroom.1
    obtain ⟨destination, hdestination⟩ := mem_keys.mp hroom.2
    simp only [Diagram.reapply, hsource, hdestination]
    exact ⟨rfl, h.pushEdge hroom.1 hroom.2⟩
  | markFinal key =>
    simp only [Diagram.reapply, setFinal?_of_live hroom]
    exact ⟨rfl, h.modifyNode key (by simp)⟩

/-- The entry struck with the latest transition is the last one of its list. -/
theorem unlink_latest (h : d.Consistent) {live : Edge} (hlast : d.edges.getLast? = some live) :
    ∃ d', { d with edges := d.edges.dropLast }.unlink
      live.sourceKey live.destinationKey live.label true = .ok d' ∧ d'.Consistent := by
  have hsplit : d.edges.dropLast ++ [live] = d.edges := List.dropLast_append_getLast? live hlast
  have hlive : live ∈ d.edges := List.mem_of_getLast? hlast
  obtain ⟨n, hn⟩ := mem_keys.mp (h.ends_mem live hlive).1
  have hdrawn (key : StateKey) (label : String) := drawn_append d.edges.dropLast live key label
  rw [hsplit] at hdrawn
  have hlisted : n.destinations live.label =
      drawn d.edges.dropLast live.sourceKey live.label ++ [live.destinationKey] := by
    rw [h.destinations_eq hn, hdrawn, if_pos ⟨rfl, rfl⟩]
  have hkept : eraseOne (n.destinations live.label) live.destinationKey true =
      drawn d.edges.dropLast live.sourceKey live.label := by simp [hlisted, eraseOne]
  refine ⟨_, unlink_eq_ok_iff.mpr ⟨n, hn, by simp [hlisted], rfl⟩, ?_⟩
  rw [hkept]
  have hshorter := h.framed.withEdges fun e he => h.ends_mem e (List.mem_of_mem_dropLast he)
  refine (hshorter.modifyNode live.sourceKey ?_).consistent ?_
  · exact fun _ => ⟨rfl, rfl⟩
  intro key m label hm
  show _ = if drawn d.edges.dropLast key label = [] then none
    else some (drawn d.edges.dropLast key label)
  rw [node?_modifyNode] at hm
  by_cases hk : live.sourceKey = key
  · subst hk
    have hm : (d.node? live.sourceKey).map _ = some m := (if_pos rfl).symm.trans hm
    rw [hn] at hm
    obtain rfl := Option.some.inj hm
    rw [Node.destinations?_relist]
    by_cases hl : live.label = label
    · rw [if_pos hl, hl]
    · rw [if_neg hl, h.destinations?_eq _ n label hn, hdrawn]
      simp [hl]
  · have hm : d.node? key = some m := (if_neg hk).symm.trans hm
    rw [h.destinations?_eq key m label hm, hdrawn]
    simp [hk]

theorem revert (h : d.Consistent) {edit : Edit} (hlatest : edit.IsLatest d) :
    (d.revert edit).1.isSome = true ∧ (¬ edit.PlacesNode → (d.revert edit).2.Consistent) := by
  cases edit with
  | placeNode n replaced =>
    have hlast : d.order.getLast? = some n.key := hlatest
    obtain ⟨m, hm⟩ := mem_keys.mp ((h.mem_order n.key).mp (List.mem_of_getLast? hlast))
    have hat : d.index.at? n.position = some m := hm
    have hcoordinate : n.key.coordinate = .ok n.position := Coordinate.coordinate_key n.position
    simp only [Diagram.revert, popNode, if_pos hlast, hcoordinate, StateIndex.delete, hat]
    exact ⟨rfl, fun hplaces => absurd trivial hplaces⟩
  | completeEdge e =>
    obtain ⟨live, hlast, hsame⟩ := hlatest
    obtain ⟨d', hunlink, hd'⟩ := h.unlink_latest hlast
    simp only [Diagram.revert, hlast, if_pos hsame, hunlink]
    exact ⟨rfl, fun _ => hd'⟩
  | markFinal key =>
    simp only [Diagram.revert, setFinal?_of_live hlatest]
    exact ⟨rfl, fun _ => h.modifyNode key (by simp)⟩

end Consistent

/-- Whatever an edit holds, making it again or taking it back is done or leaves the diagram as it is,
and what is done keeps all parts in agreement. Only a state taken back before its transitions leaves
these without an end. -/
theorem safe_for_any_edit (h : d.Consistent) (edit : Edit) :
    (edit.HasRoom d ∧ (d.reapply edit).1.isSome = true ∧ (d.reapply edit).2.Consistent ∨
      ¬ edit.HasRoom d ∧ d.reapply edit = (none, d)) ∧
    (edit.IsLatest d ∧ (d.revert edit).1.isSome = true ∧
        (¬ edit.PlacesNode → (d.revert edit).2.Consistent) ∨
      ¬ edit.IsLatest d ∧ d.revert edit = (none, d)) := by
  constructor
  · by_cases hroom : edit.HasRoom d
    · exact .inl ⟨hroom, h.reapply hroom⟩
    · exact .inr ⟨hroom, reapply_of_not_hasRoom hroom⟩
  · by_cases hlatest : edit.IsLatest d
    · exact .inl ⟨hlatest, h.revert hlatest⟩
    · exact .inr ⟨hlatest, revert_of_not_isLatest hlatest⟩

/-- A start state and another one, joined twice. -/
def joinedTwice : Diagram :=
  let source := Coordinate.of 0 0
  let destination := Coordinate.of 50 0
  let e : Edge := ⟨routed (.degenerate source) destination, "a"⟩
  (((empty.insertNode (.place source true)).insertNode (.place destination false)).pushEdge
    e).pushEdge e

theorem joinedTwice_consistent : joinedTwice.Consistent := by
  have hfirst := Consistent.empty.insertNode (n := .place (.of 0 0) true) List.not_mem_nil rfl
    fun _ => rfl
  have hboth := hfirst.insertNode (n := .place (.of 50 0) false) (by decide +kernel) rfl nofun
  refine (hboth.pushEdge ?_ ?_).pushEdge ?_ ?_
  all_goals decide +kernel

/-- A start state recorded elsewhere, with destinations of its own, one that another edit displaced,
and a transition the diagram does not end in. -/
theorem safe_for_any_edit_joinedTwice :
    let d := joinedTwice
    let foreign : Node := ⟨.of 0 50, Table.ofList [("b", [(Coordinate.of 9 9).key])], true, true⟩
    let other : Edge := ⟨.degenerate (.of 50 0), "a"⟩
    d.Consistent ∧
      (d.reapply (.placeNode foreign (some (Coordinate.of 7 7).key))).2.Consistent ∧
      d.revert (.placeNode foreign none) = (none, d) ∧ d.revert (.completeEdge other) = (none, d) ∧
      ∀ e, d.edges.getLast? = some e → (d.revert (.completeEdge e)).2.Consistent := by
  intro d foreign other
  have h : d.Consistent := joinedTwice_consistent
  obtain ⟨hagain, _⟩ := safe_for_any_edit h (.placeNode foreign (some (Coordinate.of 7 7).key))
  obtain ⟨_, hnode⟩ := safe_for_any_edit h (.placeNode foreign none)
  obtain ⟨_, hother⟩ := safe_for_any_edit h (.completeEdge other)
  have hroom : (Edit.placeNode foreign (some (Coordinate.of 7 7).key)).HasRoom d := by
    show foreign.key ∉ d.index.keys
    decide +kernel
  have hearlier : ¬ (Edit.placeNode foreign none).IsLatest d := by
    show ¬ d.order.getLast? = some foreign.key
    decide +kernel
  have hends : ¬ (Edit.completeEdge other).IsLatest d := by
    rintro ⟨live, hlast, hstart, _⟩
    have hlive : (d.edges.getLast?.map fun e => e.curve.start) = some other.curve.start := by
      rw [hlast, Option.map_some, hstart]
    exact absurd hlive (by decide +kernel)
  refine ⟨h, ?_, ?_, ?_, ?_⟩
  · exact (hagain.resolve_right fun hnone => hnone.1 hroom).2.2
  · exact (hnode.resolve_left fun hdone => hearlier hdone.1).2
  · exact (hother.resolve_left fun hdone => hends hdone.1).2
  · intro e hlast
    have hlatest : (Edit.completeEdge e).IsLatest d := ⟨e, hlast, rfl, rfl, rfl⟩
    obtain ⟨_, htaken⟩ := safe_for_any_edit h (.completeEdge e)
    exact (htaken.resolve_right fun hnone => hnone.1 hlatest).2.2 id

end Diagram

end AutomatonSketch
