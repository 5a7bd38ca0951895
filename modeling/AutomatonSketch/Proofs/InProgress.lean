import AutomatonSketch.Proofs.EditorRuns

/-! What is in progress: a transition whose end has not been placed, or a curve that follows the
pointer. Either belongs to one mode and to what is drawn, so a click never finds it dangling. -/

namespace AutomatonSketch

theorem leastIndex_go_lt {measures : List Float32} {i j : Nat} {best : Option (Nat × Float32)}
    {least : Float32} (hbest : ∀ k x, best = some (k, x) → k < i + measures.length)
    (h : leastIndex.go measures i best = some (j, least)) : j < i + measures.length := by
  induction measures generalizing i best with
  | nil => exact hbest j least h
  | cons x xs ih =>
    have hlength : i + (x :: xs).length = i + 1 + xs.length := by
      simp only [List.length_cons]
      omega
    rw [hlength] at hbest ⊢
    refine ih ?_ h
    intro k y hk
    split at hk
    · have hki : i = k := congrArg Prod.fst (Option.some.inj hk)
      omega
    · exact hbest k y hk

theorem leastIndex_lt {measures : List Float32} {j : Nat} (h : leastIndex measures = some j) :
    j < measures.length := by
  obtain ⟨⟨k, least⟩, hgo, rfl⟩ := Option.map_eq_some_iff.mp h
  have hk := leastIndex_go_lt (fun _ _ hnone => absurd hnone (by simp)) hgo
  simpa only [Nat.zero_add] using hk

theorem Curve.nearestIndex_lt {curves : List Curve} {origin : Point} {slices j : Nat}
    (h : nearestIndex curves origin slices = some j) : j < curves.length := by
  simpa only [List.length_map] using leastIndex_lt h

namespace Diagram

theorem length_edges_setEdgeControl? {d d' : Diagram} {i : Nat} {control : Coordinate}
    (h : d.setEdgeControl? i control = some d') : d'.edges.length = d.edges.length := by
  unfold setEdgeControl? at h
  split at h
  · exact absurd h (by simp)
  · obtain rfl := Option.some.inj h
    exact List.length_set

theorem setEdgeControl?_isSome {d : Diagram} {i : Nat} (h : i < d.edges.length)
    (control : Coordinate) : (d.setEdgeControl? i control).isSome = true := by
  simp [setEdgeControl?, List.getElem?_eq_getElem h]

/-- A consistent diagram has the state it finds at a place exactly there. -/
theorem Consistent.position_of_nodeAt? {d : Diagram} (hd : d.Consistent) {c : Coordinate} {n : Node}
    (h : d.nodeAt? c = some n) : n.position = c :=
  Coordinate.key_injective (hd.key_eq c.key n h)

end Diagram

namespace Editor

section Clicks

variable {e e' : Editor} {c : Coordinate}

theorem inProgress_placeNode {isStart : Bool} (h : e.placeNode c isStart = .ok e') :
    e'.pendingEdge = e.pendingEdge ∧ e'.selectedEdge = e.selectedEdge := by
  unfold placeNode at h
  split at h
  · obtain rfl := Except.ok.inj h
    exact ⟨rfl, rfl⟩
  · exact absurd h (by simp)

theorem inProgress_markFinal (h : e.markFinal c = .ok e') :
    e'.pendingEdge = e.pendingEdge ∧ e'.selectedEdge = e.selectedEdge := by
  unfold markFinal at h
  split at h
  · obtain rfl := Except.ok.inj h
    exact ⟨rfl, rfl⟩
  · exact absurd h (by simp)

theorem inProgress_finishEdge {p : Edge} (h : e.finishEdge p c = .ok e') :
    e'.pendingEdge = none ∧ e'.selectedEdge = e.selectedEdge := by
  unfold finishEdge at h
  split at h
  · obtain rfl := Except.ok.inj h
    exact ⟨rfl, rfl⟩
  · exact absurd h (by simp)

theorem finishEdge_ne_noPendingEdge (e : Editor) (p : Edge) (c : Coordinate) :
    e.finishEdge p c ≠ .error .noPendingEdge := by
  unfold finishEdge Diagram.completeEdge
  cases e.diagram.nodeAt? c <;> cases e.diagram.nodeAt? p.curve.start <;> simp

theorem placingEdgeEnd_of_noPendingEdge {label : String}
    (h : e.applyClick c label = .error .noPendingEdge) :
    e.mode = .placingEdgeEnd ∧ e.pendingEdge = none := by
  have hfinish := e.finishEdge_ne_noPendingEdge
  grind [applyClick, placeNode, markFinal, startEdge, Except.map, Diagram.addNode,
    Diagram.markFinal, Diagram.beginEdge]

end Clicks

/-- A transition that is being drawn waits for its end, has left a state of the diagram and got no
further than that state, its bend apart; a curve that is being dragged is one of the diagram's. -/
structure Attached (e : Editor) : Prop where
  pending : ∀ p, e.pendingEdge = some p → e.mode = .placingEdgeEnd ∧
    (∃ n, e.diagram.nodeAt? p.curve.start = some n ∧ n.position = p.curve.start) ∧
      p.curve.finish = p.curve.start ∧ p.curve.control2 = p.curve.start
  selected : ∀ i, e.selectedEdge = some i → e.mode = .draggingEdge ∧ i < e.diagram.edges.length

namespace Attached

variable {e e' : Editor} {c : Coordinate}

theorem of_none (hp : e.pendingEdge = none) (hs : e.selectedEdge = none) : e.Attached :=
  ⟨fun p h => absurd (hp.symm.trans h) (by simp), fun i h => absurd (hs.symm.trans h) (by simp)⟩

theorem of_same (h : e.Attached) (hp : e'.pendingEdge = e.pendingEdge)
    (hs : e'.selectedEdge = e.selectedEdge) (hm : e'.mode = e.mode) (hd : e'.diagram = e.diagram) :
    e'.Attached := by
  constructor
  · rw [hp, hm, hd]
    exact h.pending
  · rw [hs, hm, hd]
    exact h.selected

theorem pending_none (h : e.Attached) (hm : e.mode ≠ .placingEdgeEnd) : e.pendingEdge = none := by
  cases hp : e.pendingEdge with
  | none => rfl
  | some p => exact absurd (h.pending p hp).1 hm

theorem selected_none (h : e.Attached) (hm : e.mode ≠ .draggingEdge) : e.selectedEdge = none := by
  cases hs : e.selectedEdge with
  | none => rfl
  | some i => exact absurd (h.selected i hs).1 hm

theorem not_both (h : e.Attached) : e.pendingEdge = none ∨ e.selectedEdge = none := by
  by_cases hm : e.mode = .placingEdgeEnd
  · exact .inr (h.selected_none (by simp [hm]))
  · exact .inl (h.pending_none hm)

theorem setMode (h : e.Attached) (mode : EditorMode) : (e.setMode mode).Attached := by
  constructor
  · intro p hp
    by_cases hm : mode = .placingEdgeEnd
    · simp only [Editor.setMode, hm, if_true] at hp
      exact ⟨hm, (h.pending p hp).2⟩
    · simp [Editor.setMode, hm] at hp
  · intro i hi
    by_cases hm : mode = .draggingEdge
    · simp only [Editor.setMode, hm, if_true] at hi
      exact ⟨hm, (h.selected i hi).2⟩
    · simp [Editor.setMode, hm] at hi

/-- A transition begins where a state is, and the click that begins it waits for its end. -/
theorem startEdge (hd : e.diagram.Consistent) (hs : e.selectedEdge = none) {label : String}
    (h : e.startEdge c label = .ok e') : e'.Attached := by
  unfold Editor.startEdge Diagram.beginEdge at h
  cases hn : e.diagram.nodeAt? c with
  | none => simp [hn] at h
  | some n =>
    simp only [hn, Except.ok.injEq] at h
    subst h
    have hposition := hd.position_of_nodeAt? hn
    constructor
    · intro p hp
      obtain rfl := Option.some.inj hp
      exact ⟨rfl, ⟨n, hposition.symm ▸ hn, rfl⟩, rfl, rfl⟩
    · intro i hi
      exact absurd (hs.symm.trans hi) (by simp)

/-- In every mode but two nothing is in progress before the click; those two end what is. -/
theorem applyClick (h : e.Attached) (hd : e.diagram.Consistent) {label : String}
    (hclick : e.applyClick c label = .ok e') : e'.Attached := by
  have hkept (hend : e.mode ≠ .placingEdgeEnd) (hdrag : e.mode ≠ .draggingEdge)
      (hsame : e'.pendingEdge = e.pendingEdge ∧ e'.selectedEdge = e.selectedEdge) : e'.Attached :=
    .of_none (hsame.1.trans (h.pending_none hend)) (hsame.2.trans (h.selected_none hdrag))
  cases hm : e.mode with
  | addingNode =>
    simp only [Editor.applyClick, hm] at hclick
    exact hkept (by simp [hm]) (by simp [hm]) (inProgress_placeNode hclick)
  | addingStartNode =>
    simp only [Editor.applyClick, hm] at hclick
    cases hplace : e.placeNode c true with
    | error err => simp [hplace, Except.map] at hclick
    | ok placed =>
      simp only [hplace, Except.map, Except.ok.injEq] at hclick
      subst hclick
      obtain ⟨hp, hs⟩ := inProgress_placeNode hplace
      exact hkept (by simp [hm]) (by simp [hm]) ⟨hp, hs⟩
  | addingFinalNode =>
    simp only [Editor.applyClick, hm] at hclick
    exact hkept (by simp [hm]) (by simp [hm]) (inProgress_markFinal hclick)
  | placingEdgeStart | placingEpsilonEdgeStart =>
    simp only [Editor.applyClick, hm] at hclick
    exact startEdge hd (h.selected_none (by simp [hm])) hclick
  | placingEdgeEnd =>
    simp only [Editor.applyClick, hm] at hclick
    split at hclick
    · obtain ⟨hp, hs⟩ := inProgress_finishEdge hclick
      exact .of_none hp (hs.trans (h.selected_none (by simp [hm])))
    · exact absurd hclick (by simp)
  | draggingEdge =>
    simp only [Editor.applyClick, hm, Except.ok.injEq] at hclick
    subst hclick
    exact .of_none (h.pending_none (by simp [hm])) rfl
  | idle =>
    simp only [Editor.applyClick, hm, Except.ok.injEq] at hclick
    exact hclick ▸ h

theorem clickWith (h : e.Attached) (hd : e.diagram.Consistent) (c : Coordinate) (label : String) :
    (e.clickWith c label).2.Attached := by
  have hhush : e.hush.Attached := h.of_same rfl rfl rfl rfl
  cases hclick : e.hush.applyClick c label with
  | ok e' =>
    simp only [Editor.clickWith, hclick]
    exact hhush.applyClick hd hclick
  | error err =>
    simp only [Editor.clickWith, hclick]
    by_cases herr : err = .noPendingEdge
    · subst herr
      obtain ⟨hm, hp⟩ := placingEdgeEnd_of_noPendingEdge hclick
      exact .of_none hp (hhush.selected_none (by simp [hm]))
    · have hmode : modeAfter e.mode err = e.mode := by cases err <;> simp_all [modeAfter]
      exact h.of_same rfl rfl hmode rfl

theorem preview (h : e.Attached) (c : Coordinate) : (e.previewPendingEdge c).Attached := by
  constructor
  · intro p hp
    obtain ⟨q, hq, rfl⟩ := Option.map_eq_some_iff.mp hp
    exact h.pending q hq
  · exact h.selected

theorem select (h : e.Attached) (p : Point) : (e.selectCurveAt p).2.Attached := by
  unfold selectCurveAt
  split
  · exact h
  · rename_i i hi
    have hlt : i < e.diagram.edges.length := by
      simpa only [List.length_map] using Curve.nearestIndex_lt hi
    constructor
    · intro q hq
      exact absurd hq (by simp)
    · intro j hj
      obtain rfl := Option.some.inj hj
      exact ⟨rfl, hlt⟩

/-- Bending a curve moves no state and loses no transition. -/
theorem drag (h : e.Attached) (c : Coordinate) : ((e.dragSelectedCurve? c).getD e).Attached := by
  unfold dragSelectedCurve?
  split
  · exact h
  · rename_i i hi
    split
    · cases hbent : e.diagram.setEdgeControl? i c with
      | none => exact h
      | some d =>
        have hlength := Diagram.length_edges_setEdgeControl? hbent
        constructor
        · intro p hp
          obtain ⟨hm, -⟩ := h.pending p hp
          obtain ⟨hm', -⟩ := h.selected i hi
          exact absurd (hm.symm.trans hm') (by simp)
        · intro j hj
          obtain ⟨hm, hlt⟩ := h.selected j hj
          exact ⟨hm, hlength.symm ▸ hlt⟩
    · exact h

theorem perform (h : e.Attached) (hd : e.diagram.Consistent) (action : Action) :
    (e.perform action).Attached := by
  cases action with
  | setMode mode => exact h.setMode mode
  | click c => exact h.clickWith hd c _
  | clickWith c label => exact h.clickWith hd c label
  | preview c => exact h.preview c
  | select p => exact h.select p
  | drag c => exact h.drag c
  | undo | redo | discardAll => exact .of_none rfl rfl
  | restore data =>
    cases hdata : data.restore with
    | error err =>
      simp only [Editor.perform, Editor.restore, hdata]
      exact h
    | ok d =>
      simp only [Editor.perform, Editor.restore, hdata]
      exact .of_none rfl rfl
  | setOptions | say | hush => exact h.of_same rfl rfl rfl rfl

theorem after (options : WorkspaceOptions) (actions : List Action) :
    (Editor.after options actions).Attached := by
  have hrun {e : Editor} (hfits : e.Fits) (h : e.Attached) :
      (actions.foldl Editor.perform e).Attached := by
    induction actions generalizing e with
    | nil => exact h
    | cons action actions ih => exact ih (hfits.perform action) (h.perform hfits.consistent action)
  exact hrun History.Fits.empty (.of_none rfl rfl)

/-- The source of a transition that is being drawn is there, so only its end can be missed. -/
theorem clickWith_placingEdgeEnd (h : e.Attached) (hm : e.mode = .placingEdgeEnd) (c : Coordinate)
    (label : String) :
    (e.clickWith c label).1 =
      if e.pendingEdge = none then .error .noPendingEdge
      else if e.diagram.nodeAt? c = none then .error (.noNode c.key .edgeEnd)
      else .ok () := by
  cases hp : e.pendingEdge with
  | none => simp [Editor.clickWith, Editor.applyClick, hush, hm, hp]
  | some p =>
    obtain ⟨-, ⟨source, hsource, -⟩, -⟩ := h.pending p hp
    cases hn : e.diagram.nodeAt? c with
    | none =>
      simp [Editor.clickWith, Editor.applyClick, hush, hm, hp, finishEdge, Diagram.completeEdge, hn]
    | some n =>
      simp [Editor.clickWith, Editor.applyClick, hush, hm, hp, finishEdge, Diagram.completeEdge, hn,
        hsource]

theorem isSome_drag (h : e.Attached) (c : Coordinate) :
    (e.dragSelectedCurve? c).isSome = e.selectedEdge.isSome := by
  cases hs : e.selectedEdge with
  | none => simp [dragSelectedCurve?, hs]
  | some i =>
    obtain ⟨hm, hlt⟩ := h.selected i hs
    have hbent := Diagram.setEdgeControl?_isSome hlt c
    simp [dragSelectedCurve?, hs, hm, hbent]

end Attached

/-- What is in progress never dangles: a transition is being drawn in one mode only, from a state
that is there; a curve is being dragged in another one only, and is there; and never both at once.
So the click that ends a transition can only miss its end or come without one, and dragging bends a
curve exactly if one is selected. -/
theorem inProgress_after (options : WorkspaceOptions) (actions : List Action) :
    let e := after options actions
    (∀ p, e.pendingEdge = some p → e.mode = .placingEdgeEnd ∧
        (∃ n ∈ e.diagram.nodes, n.position = p.curve.start) ∧
        p.curve.finish = p.curve.start ∧ p.curve.control2 = p.curve.start) ∧
      (∀ i, e.selectedEdge = some i → e.mode = .draggingEdge ∧ i < e.diagram.edges.length) ∧
      (e.pendingEdge = none ∨ e.selectedEdge = none) ∧
      (e.mode = .placingEdgeEnd → ∀ c label, (e.clickWith c label).1 =
        if e.pendingEdge = none then .error .noPendingEdge
        else if e.diagram.nodeAt? c = none then .error (.noNode c.key .edgeEnd)
        else .ok ()) ∧
      ∀ c, (e.dragSelectedCurve? c).isSome = e.selectedEdge.isSome := by
  intro e
  have h : e.Attached := .after options actions
  have hd : e.diagram.Consistent := (Fits.after options actions).consistent
  refine ⟨?_, h.selected, h.not_both, h.clickWith_placingEdgeEnd, h.isSome_drag⟩
  intro p hp
  obtain ⟨hm, ⟨n, hn, hposition⟩, hcurve⟩ := h.pending p hp
  have hlive : n ∈ e.diagram.nodes := by
    have hkey := (hd.mem_order p.curve.start.key).mpr (Diagram.mem_keys.mpr ⟨n, hn⟩)
    exact List.mem_filterMap.mpr ⟨_, hkey, hn⟩
  exact ⟨hm, ⟨n, hlive, hposition⟩, hcurve⟩

end Editor

end AutomatonSketch
