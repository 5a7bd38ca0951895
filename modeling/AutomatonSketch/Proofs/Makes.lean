import AutomatonSketch.History.Edit
import AutomatonSketch.Proofs.Listings

/-! Edits that fit a diagram. Each is taken back and made again without a trace, also after the
transition it drew has been bent. -/

namespace AutomatonSketch

/-- The transition with its first control point where it starts. -/
def Edge.unbent (e : Edge) : Edge :=
  { e with curve := { e.curve with control1 := e.curve.start } }

/-- The edit as it would be recorded for a transition that was never bent. -/
def Edit.unbent : Edit → Edit
  | .completeEdge e => .completeEdge e.unbent
  | edit => edit

theorem Edge.ends_of_unbent_eq {e e' : Edge} (h : e.unbent = e'.unbent) :
    e.curve.start = e'.curve.start ∧ e.curve.finish = e'.curve.finish ∧ e.label = e'.label := by
  simp only [Edge.unbent, Edge.mk.injEq, Curve.mk.injEq] at h
  exact ⟨h.1.1, h.1.2.2.2, h.2⟩

theorem Node.relist_link {n : Node} {label : String} (h : n.destinations? label ≠ some [])
    (key : StateKey) : (n.link label key).relist label (n.destinations label) = n := by
  have hlists (label' : String) :
      ((n.link label key).relist label (n.destinations label)).outgoing.get? label' =
        n.outgoing.get? label' := by
    show Node.destinations? _ label' = n.destinations? label'
    rw [destinations?_relist, destinations?_link]
    by_cases hl : label = label'
    · subst hl
      cases hlisted : n.destinations? label with
      | none => simp [destinations, hlisted]
      | some listed =>
        have hne : listed ≠ [] := by rintro rfl; exact h hlisted
        simp [destinations, hlisted, hne]
    · rw [if_neg hl, if_neg hl]
  exact congrArg (fun outgoing => { n with outgoing }) (Table.ext_get? hlists)

namespace Diagram

theorem modifyNode_modifyNode {d : Diagram} {key : StateKey} {f g : Node → Node}
    (h : ∀ n, d.node? key = some n → g (f n) = n) : (d.modifyNode key f).modifyNode key g = d :=
  congrArg (fun index => { d with index }) (Table.modify_modify h)

theorem popNode_insertNode {d : Diagram} {n : Node} (hfresh : n.key ∉ d.index.keys)
    (hother : d.start ≠ some n.key) (hstart : n.isStart = true → d.start = none) :
    (d.insertNode n).popNode n.key = (some n, d) := by
  have hlast : (d.insertNode n).order.getLast? = some n.key := List.getLast?_concat
  have hat : (d.insertNode n).index.at? n.position = some n := by
    have := d.node?_insertNode n n.key
    rwa [if_pos rfl] at this
  have hindex : (d.insertNode n).index.erase n.key = d.index := Table.erase_insert hfresh n
  have horder : (d.insertNode n).order.dropLast = d.order := List.dropLast_concat
  have hback : (if (d.insertNode n).start = some n.key then none else (d.insertNode n).start) =
      d.start := by
    show (if (if n.isStart then some n.key else d.start) = some n.key then none
      else if n.isStart then some n.key else d.start) = d.start
    by_cases hs : n.isStart = true
    · simp [hs, hstart hs]
    · simp [hs, hother]
  have hcoordinate : n.key.coordinate = .ok n.position := Coordinate.coordinate_key n.position
  have herase : (d.insertNode n).index.erase n.position.key = d.index := hindex
  simp only [popNode, hlast, if_true, hcoordinate, StateIndex.delete, hat, herase, horder, hback]
  rfl

theorem restoreStart?_takeStart {d : Diagram} (h : d.Consistent) {start : StateKey}
    (hs : d.start = some start) : d.takeStart.2.restoreStart? start = some d := by
  obtain ⟨n, hn⟩ := mem_keys.mp (h.start_mem start hs)
  have htake : d.takeStart.2 =
      { d.modifyNode start fun n => { n with isStart := false } with start := none } := by
    simp only [takeStart, hs]
  have hagain : d.takeStart.2.takeStart.2 = d.takeStart.2 := by
    rw [takeStart, takeStart_start]
  have hnode : d.takeStart.2.node? start = some { n with isStart := false } := by
    rw [h.framed.node?_takeStart, hn, Option.map_some]
  have hflag : ∀ m, d.node? start = some m → { m with isStart := true } = m := by
    intro m hm
    rw [← (h.isStart_iff start m hm).mpr hs]
  have hback : (d.index.modify start fun n => { n with isStart := false }).modify start
      (fun n => { n with isStart := true }) = d.index := Table.modify_modify hflag
  simp only [restoreStart?, hnode, hagain]
  rw [htake]
  simp only [modifyNode, hback, ← hs]

theorem unlink_link {d : Diagram} (h : d.Consistent) {e : Edge}
    (hsource : e.sourceKey ∈ d.index.keys) :
    (d.modifyNode e.sourceKey fun n => n.link e.label e.destinationKey).unlink
      e.sourceKey e.destinationKey e.label true = .ok d := by
  obtain ⟨n, hn⟩ := mem_keys.mp hsource
  have hlisted : (n.link e.label e.destinationKey).destinations e.label =
      n.destinations e.label ++ [e.destinationKey] := by
    rw [Node.destinations_link, if_pos rfl]
  have hrest : eraseOne (n.destinations e.label ++ [e.destinationKey]) e.destinationKey true =
      n.destinations e.label := by simp [eraseOne]
  have hne : n.destinations? e.label ≠ some [] := by
    rw [h.destinations?_eq e.sourceKey n e.label hn]
    split <;> simp [*]
  refine unlink_eq_ok_iff.mpr ⟨n.link e.label e.destinationKey, ?_, by simp [hlisted], ?_⟩
  · rw [node?_modifyNode, if_pos rfl, hn, Option.map_some]
  · rw [hlisted, hrest]
    refine (modifyNode_modifyNode fun m hm => ?_).symm
    obtain rfl : n = m := Option.some.inj (hn.symm.trans hm)
    exact Node.relist_link hne e.destinationKey

end Diagram

namespace Edit

/-- The edit fits the first diagram and leads to the second one. -/
inductive Makes : Edit → Diagram → Diagram → Prop
  | placeNode {d : Diagram} {n : Node} (hfresh : n.key ∉ d.index.keys)
      (hbare : n.outgoing = .empty) (hplain : n.isStart = false) :
      Makes (.placeNode n none) d (d.insertNode n)
  | placeStart {d : Diagram} {n : Node} (hfresh : n.key ∉ d.index.keys)
      (hbare : n.outgoing = .empty) (hstart : n.isStart = true) :
      Makes (.placeNode n d.start) d (d.takeStart.2.insertNode n)
  | completeEdge {d : Diagram} {e : Edge} (hsource : e.sourceKey ∈ d.index.keys)
      (hdestination : e.destinationKey ∈ d.index.keys) :
      Makes (.completeEdge e) d (d.pushEdge e)
  | markFinal {d : Diagram} {key : StateKey} {n : Node} (hn : d.node? key = some n)
      (hopen : n.isFinal = false) :
      Makes (.markFinal key) d (d.modifyNode key fun n => { n with isFinal := true })

namespace Makes

variable {edit : Edit} {d d' : Diagram}

theorem consistent (hd : d.Consistent) (h : edit.Makes d d') : d'.Consistent := by
  cases h with
  | placeNode hfresh hbare hplain => exact hd.insertNode hfresh hbare (by simp [hplain])
  | placeStart hfresh hbare hstart =>
    exact hd.takeStart.insertNode (by simpa using hfresh) hbare (by simp)
  | completeEdge hsource hdestination => exact hd.pushEdge hsource hdestination
  | markFinal hn hopen => exact hd.modifyNode _ (by simp)

theorem framed (hd : d.Framed) (h : edit.Makes d d') : d'.Framed := by
  cases h with
  | placeNode hfresh hbare hplain => exact hd.insertNode hfresh (by simp [hplain])
  | placeStart hfresh hbare hstart =>
    exact hd.takeStart.insertNode (by simpa using hfresh) (by simp)
  | completeEdge hsource hdestination => exact hd.pushEdge hsource hdestination
  | markFinal hn hopen => exact hd.modifyNode _ (by simp)

theorem reapply (h : edit.Makes d d') : d.reapply edit = (some edit, d') := by
  cases h with
  | @placeNode _ n hfresh hbare hplain =>
    have hat : d.nodeAt? n.position = none := Diagram.node?_eq_none_iff.mpr hfresh
    simp [Diagram.reapply, hat, hplain, Node.isolated_of_outgoing hbare]
  | @placeStart _ n hfresh hbare hstart =>
    have hat : d.nodeAt? n.position = none := Diagram.node?_eq_none_iff.mpr hfresh
    simp [Diagram.reapply, hat, hstart, Node.isolated_of_outgoing hbare]
  | completeEdge hsource hdestination =>
    obtain ⟨source, hs⟩ := Diagram.mem_keys.mp hsource
    obtain ⟨destination, ht⟩ := Diagram.mem_keys.mp hdestination
    simp only [Diagram.reapply, hs, ht]
  | markFinal hn hopen => simp [Diagram.reapply, Diagram.setFinal?, hn]

/-- What was recorded, even before a bend, takes the edit back as it was made. -/
theorem revert (hd : d.Consistent) (h : edit.Makes d d') {recorded : Edit}
    (hr : recorded.unbent = edit.unbent) : d'.revert recorded = (some edit, d) := by
  cases h with
  | @placeNode _ n hfresh hbare hplain =>
    obtain rfl : recorded = .placeNode n none := by cases recorded <;> simp_all [Edit.unbent]
    rw [Diagram.revert, Diagram.popNode_insertNode hfresh (hd.framed.start_ne hfresh)
      (by simp [hplain])]
    rfl
  | @placeStart _ n hfresh hbare hstart =>
    obtain rfl : recorded = .placeNode n d.start := by cases recorded <;> simp_all [Edit.unbent]
    rw [Diagram.revert, Diagram.popNode_insertNode (by simpa using hfresh) (by simp) (by simp)]
    cases hs : d.start with
    | none => simp [Diagram.takeStart, hs]
    | some start => simp [Diagram.restoreStart?_takeStart hd hs]
  | @completeEdge _ e hsource hdestination =>
    obtain ⟨e', rfl, he⟩ : ∃ e', recorded = .completeEdge e' ∧ e'.unbent = e.unbent := by
      cases recorded <;> simp_all [Edit.unbent]
    obtain ⟨hstart, hfinish, hlabel⟩ := Edge.ends_of_unbent_eq he
    have hlast : (d.pushEdge e).edges.getLast? = some e := List.getLast?_concat
    have hshorter : { d.pushEdge e with edges := (d.pushEdge e).edges.dropLast } =
        d.modifyNode e.sourceKey fun n => n.link e.label e.destinationKey :=
      congrArg (fun edges => { d.pushEdge e with edges }) List.dropLast_concat
    simp only [Diagram.revert, hlast, hstart, hfinish, hlabel, and_self, if_true, hshorter,
      Diagram.unlink_link hd hsource]
  | @markFinal _ key n hn hopen =>
    obtain rfl : recorded = .markFinal key := by cases recorded <;> simp_all [Edit.unbent]
    have hlive : (d.modifyNode key fun n => { n with isFinal := true }).node? key =
        some { n with isFinal := true } := by
      rw [Diagram.node?_modifyNode, if_pos rfl, hn, Option.map_some]
    have hback : (d.modifyNode key fun n => { n with isFinal := true }).modifyNode key
        (fun n => { n with isFinal := false }) = d := by
      apply Diagram.modifyNode_modifyNode
      intro m hm
      obtain rfl : n = m := Option.some.inj (hn.symm.trans hm)
      rw [← hopen]
    simp only [Diagram.revert, Diagram.setFinal?, hlive, hback]

/-- There is no edit without a state that it places or touches. -/
theorem order_ne_nil (hd : d.Consistent) (h : edit.Makes d d') : d'.order ≠ [] := by
  have hlive {key : StateKey} (hk : key ∈ d.index.keys) : d.order ≠ [] :=
    List.ne_nil_of_mem ((hd.mem_order key).mpr hk)
  cases h with
  | placeNode => exact List.append_ne_nil_of_right_ne_nil _ (List.cons_ne_nil _ _)
  | placeStart => exact List.append_ne_nil_of_right_ne_nil _ (List.cons_ne_nil _ _)
  | completeEdge hsource => exact hlive hsource
  | @markFinal _ key n hn => exact hlive (Diagram.mem_keys.mpr ⟨n, hn⟩)

theorem of_addNode {c : Coordinate} {isStart : Bool} {placement : Placement}
    (h : d.addNode c isStart = .ok (placement, d')) :
    (Edit.placeNode placement.node placement.replacedStart).Makes d d' := by
  unfold Diagram.addNode at h
  split at h
  · exact absurd h (by simp)
  · rename_i hat
    have hfresh : (Node.place c isStart).key ∉ d.index.keys := Diagram.node?_eq_none_iff.mp hat
    cases isStart with
    | false =>
      simp only [Bool.false_eq_true, if_false, Except.ok.injEq, Prod.mk.injEq] at h
      obtain ⟨rfl, rfl⟩ := h
      exact .placeNode hfresh rfl rfl
    | true =>
      simp only [if_true, Diagram.takeStart_fst, Except.ok.injEq, Prod.mk.injEq] at h
      obtain ⟨rfl, rfl⟩ := h
      exact .placeStart hfresh rfl rfl

theorem of_markFinal (hd : d.Framed) {c : Coordinate} {n : Node}
    (h : d.markFinal c = .ok (n, d')) : (Edit.markFinal n.key).Makes d d' := by
  unfold Diagram.markFinal at h
  split at h
  · exact absurd h (by simp)
  · rename_i m hm
    have hkey : m.key = c.key := hd.key_eq c.key m hm
    split at h
    · exact absurd h (by simp)
    · rename_i hopen
      simp only [Except.ok.injEq, Prod.mk.injEq] at h
      obtain ⟨rfl, rfl⟩ := h
      rw [← hkey]
      exact .markFinal (hkey ▸ hm) (Bool.eq_false_iff.mpr hopen)

theorem of_completeEdge (hd : d.Framed) {pending e : Edge} {c : Coordinate}
    (h : d.completeEdge pending c = .ok (e, d')) : (Edit.completeEdge e).Makes d d' := by
  unfold Diagram.completeEdge at h
  split at h
  · exact absurd h (by simp)
  · rename_i n hn
    split at h
    · exact absurd h (by simp)
    · rename_i source hs
      simp only [Except.ok.injEq, Prod.mk.injEq] at h
      obtain ⟨rfl, rfl⟩ := h
      have hroute : (Diagram.routed pending.curve n.position).start = pending.curve.start ∧
          (Diagram.routed pending.curve n.position).finish = n.position := by
        unfold Diagram.routed
        split <;> exact ⟨rfl, rfl⟩
      have hkey : n.position.key = c.key := hd.key_eq c.key n hn
      refine .completeEdge (Diagram.mem_keys.mpr ⟨source, ?_⟩) (Diagram.mem_keys.mpr ⟨n, ?_⟩)
      · rw [Edge.sourceKey, hroute.1]
        exact hs
      · rw [Edge.destinationKey, hroute.2, hkey]
        exact hn

end Makes

end Edit

end AutomatonSketch
