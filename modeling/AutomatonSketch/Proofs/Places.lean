import AutomatonSketch.Proofs.Rewind
import AutomatonSketch.Proofs.Snapshots

/-! The places of states. A state is drawn where it was placed, and taking edits back or making them
again brings no other places up. -/

namespace AutomatonSketch

namespace Diagram

/-- There is a state at a place where none was before. -/
def Gains (d d' : Diagram) (c : Coordinate) : Prop :=
  d.nodeAt? c = none ∧ (d'.nodeAt? c).isSome = true

instance (d d' : Diagram) (c : Coordinate) : Decidable (d.Gains d' c) :=
  inferInstanceAs (Decidable (_ ∧ _))

theorem gains_of_addNode {d d' : Diagram} {c : Coordinate} {isStart : Bool} {placement : Placement}
    (h : d.addNode c isStart = .ok (placement, d')) :
    placement.node.position = c ∧ d.Gains d' c := by
  have hplaced (d : Diagram) :
      (d.insertNode (.place c isStart)).nodeAt? c = some (.place c isStart) :=
    (node?_insertNode d (.place c isStart) c.key).trans (if_pos rfl)
  unfold addNode at h
  split at h
  · exact absurd h (by simp)
  · rename_i hfree
    split at h
    all_goals
      obtain ⟨rfl, rfl⟩ := Prod.mk.inj (Except.ok.inj h)
      exact ⟨rfl, hfree, by rw [hplaced]; rfl⟩

end Diagram

namespace Edit

def place? : Edit → Option Coordinate
  | placeNode n _ => some n.position
  | completeEdge _ | markFinal _ => none

theorem place?_of_unbent_eq {edit edit' : Edit} (h : edit.unbent = edit'.unbent) :
    edit.place? = edit'.place? := by
  have hunbent (edit : Edit) : edit.place? = edit.unbent.place? := by cases edit <;> rfl
  rw [hunbent edit, hunbent edit', h]

theorem Makes.order_eq {edit : Edit} {d d' : Diagram} (h : edit.Makes d d') :
    d'.order = d.order ++ (edit.place?.map Coordinate.key).toList := by
  cases h with
  | placeNode => rfl
  | @placeStart _ n =>
    show d.takeStart.2.order ++ [n.key] = _
    rw [Diagram.takeStart_order]
    rfl
  | completeEdge | markFinal => exact (List.append_nil _).symm

end Edit

theorem Replays.order_eq {edits : List Edit} {d d' : Diagram} (h : Replays edits d d') :
    d'.order = d.order ++ (edits.filterMap Edit.place?).map Coordinate.key := by
  induction h with
  | nil d => simp
  | @cons edit edits d d₁ d' hfirst _ ih =>
    rw [ih, hfirst.order_eq, List.append_assoc]
    cases edit <;> rfl

namespace Editor

/-- The places of the states that are drawn, and of those that redoing can bring back. -/
def places (e : Editor) : List Coordinate :=
  (e.history.undoStack ++ e.history.redoStack).filterMap Edit.place?

variable {e e' : Editor}

theorem places_eq_of_history (h : e'.history = e.history) : e'.places = e.places := by
  rw [places, places, h]

theorem mem_places {c : Coordinate} : c ∈ e.places ↔
    ∃ edit, (edit ∈ e.history.undoStack ∨ edit ∈ e.history.redoStack) ∧ edit.place? = some c := by
  rw [places, List.mem_filterMap]
  simp only [List.mem_append]

theorem Fits.position_mem_places (h : e.Fits) {n : Node} (hn : n ∈ e.diagram.nodes) :
    n.position ∈ e.places := by
  obtain ⟨d, hreplay, heq⟩ := h.explained
  obtain ⟨edges, hd, _⟩ := Diagram.unbent_eq_iff.mp heq
  have horder : e.diagram.order = (e.history.applied.filterMap Edit.place?).map Coordinate.key := by
    rw [hd]
    exact hreplay.order_eq
  -- The log explains the order of creation, and a key in there stands for one place only.
  have hkey : n.key ∈ e.diagram.order := by
    rw [← h.consistent.keys_nodes]
    exact List.mem_map_of_mem hn
  rw [horder] at hkey
  obtain ⟨c, hc, hsame⟩ := List.mem_map.mp hkey
  obtain rfl : c = n.position := Coordinate.key_injective hsame
  obtain ⟨edit, hedit, hplace⟩ := List.mem_filterMap.mp hc
  exact mem_places.mpr ⟨edit, .inl (List.mem_reverse.mp hedit), hplace⟩

section Clicks

variable {c : Coordinate} {label : String}

theorem place?_of_placeNode {isStart : Bool} (h : e.placeNode c isStart = .ok e') :
    ∃ edit : Edit, e'.history = e.history.record edit ∧ edit.place? = some c ∧
      e.diagram.Gains e'.diagram c := by
  unfold placeNode at h
  split at h
  · rename_i placement d hadd
    obtain rfl := Except.ok.inj h
    obtain ⟨hposition, hgains⟩ := Diagram.gains_of_addNode hadd
    exact ⟨_, rfl, congrArg some hposition, hgains⟩
  · exact absurd h (by simp)

theorem place?_of_markFinal (h : e.markFinal c = .ok e') :
    ∃ edit : Edit, e'.history = e.history.record edit ∧ edit.place? = none := by
  unfold markFinal at h
  split at h
  · obtain rfl := Except.ok.inj h
    exact ⟨_, rfl, rfl⟩
  · exact absurd h (by simp)

theorem place?_of_finishEdge {pending : Edge} (h : e.finishEdge pending c = .ok e') :
    ∃ edit : Edit, e'.history = e.history.record edit ∧ edit.place? = none := by
  unfold finishEdge at h
  split at h
  · obtain rfl := Except.ok.inj h
    exact ⟨_, rfl, rfl⟩
  · exact absurd h (by simp)

theorem place?_of_applyClick (h : e.applyClick c label = .ok e') : e'.history = e.history ∨
    ∃ edit : Edit, e'.history = e.history.record edit ∧
      (edit.place? = none ∨ edit.place? = some c ∧ e.diagram.Gains e'.diagram c) := by
  cases hmode : e.mode with
  | addingStartNode =>
    cases hplace : e.placeNode c true with
    | error err => simp [applyClick, hmode, hplace, Except.map] at h
    | ok placed =>
      simp only [applyClick, hmode, hplace, Except.map, Except.ok.injEq] at h
      subst h
      obtain ⟨edit, hrecorded, hplaced⟩ := place?_of_placeNode hplace
      exact .inr ⟨edit, hrecorded, .inr hplaced⟩
  | _ =>
    grind [applyClick, → place?_of_placeNode, → place?_of_markFinal, → place?_of_finishEdge,
      → same_of_startEdge]

end Clicks

theorem places_click (e : Editor) (c : Coordinate) : ∀ c' ∈ (e.click c).2.places,
    c' ∈ e.places ∨ c' = c ∧ e.diagram.Gains (e.click c).2.diagram c := by
  intro c' hc'
  unfold click clickWith at hc' ⊢
  split at hc'
  · rename_i e' hclick
    obtain ⟨edit, hedit, hplace⟩ := mem_places.mp hc'
    rcases place?_of_applyClick hclick with hsame | ⟨recorded, hrecorded, hnew⟩
    · rw [hsame] at hedit
      exact .inl (mem_places.mpr ⟨edit, hedit, hplace⟩)
    · simp only [hrecorded, History.record, List.mem_cons, List.not_mem_nil, or_false] at hedit
      rcases hedit with rfl | hedit
      · rcases hnew with hnone | ⟨hsome, hgains⟩
        · exact absurd (hnone.symm.trans hplace) (by simp)
        · exact .inr ⟨Option.some.inj (hplace.symm.trans hsome), hgains⟩
      · exact .inl (mem_places.mpr ⟨edit, .inl hedit, hplace⟩)
  · exact .inl hc'

theorem Fits.places_undo (h : e.Fits) : e.undo.2.places ⊆ e.places := by
  cases hstack : e.history.undoStack with
  | nil =>
    have hsame : e.undo.2.history = e.history := by simp [Editor.undo, History.undo, hstack]
    rw [places_eq_of_history hsame]
    exact List.Subset.refl _
  | cons recorded older =>
    obtain ⟨edit, _, hunbent, _, hhistory⟩ := h.undo_cons hstack
    intro c hc
    obtain ⟨moved, hmoved, hplace⟩ := mem_places.mp hc
    rw [hhistory] at hmoved
    rcases hmoved with holder | hmoved
    · exact mem_places.mpr ⟨moved, .inl (hstack ▸ List.mem_cons_of_mem _ holder), hplace⟩
    · rcases List.mem_cons.mp hmoved with rfl | hlater
      · rw [Edit.place?_of_unbent_eq hunbent] at hplace
        exact mem_places.mpr ⟨recorded, .inl (hstack ▸ List.mem_cons_self), hplace⟩
      · exact mem_places.mpr ⟨moved, .inr hlater, hplace⟩

theorem Fits.places_redo (h : e.Fits) : e.redo.2.places ⊆ e.places := by
  cases hstack : e.history.redoStack with
  | nil =>
    have hsame : e.redo.2.history = e.history := by simp [Editor.redo, History.redo, hstack]
    rw [places_eq_of_history hsame]
    exact List.Subset.refl _
  | cons edit later =>
    obtain ⟨d, _, hredo, _⟩ := History.Fits.redo h hstack
    have hhistory : e.redo.2.history = ⟨edit :: e.history.undoStack, later⟩ :=
      congrArg (·.2.1) hredo
    intro c hc
    rw [mem_places, hhistory] at hc
    rw [mem_places, hstack]
    grind

theorem places_discardAll (e : Editor) : e.discardAll.places ⊆ e.places := by
  intro c hc
  obtain ⟨edit, hedit, hplace⟩ := mem_places.mp hc
  rcases hedit with hnone | happlied
  · exact absurd hnone List.not_mem_nil
  · exact mem_places.mpr ⟨edit, .inl (List.mem_reverse.mp happlied), hplace⟩

theorem places_of_restore {data : Snapshot} (h : e.restore data = .ok e') :
    ∀ c ∈ e'.places, ∃ n ∈ e'.diagram.nodes, n.position = c := by
  intro c hc
  unfold restore at h
  split at h
  · exact absurd h (by simp)
  · rename_i d hd
    obtain rfl := Except.ok.inj h
    obtain ⟨edit, hedit, hplace⟩ := mem_places.mp hc
    simp only [History.ofDiagram, History.contents, List.mem_reverse, List.mem_append,
      List.mem_map, List.not_mem_nil, or_false] at hedit
    rcases hedit with ⟨n, hn, rfl⟩ | ⟨drawn, _, rfl⟩
    · exact ⟨n, hn, Option.some.inj hplace⟩
    · exact absurd hplace (by simp [Edit.place?])

end Editor

end AutomatonSketch
