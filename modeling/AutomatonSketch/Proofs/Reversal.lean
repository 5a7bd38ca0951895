import AutomatonSketch.Proofs.EditorRuns

/-! Edits taken back and made again. A click is reversed without a trace; a discarded diagram comes
back as its log recorded it. -/

namespace AutomatonSketch

namespace Editor

variable {e e' : Editor}

/-- An edit just recorded is the next to be taken back, and then the next to be made again. -/
theorem undo_redo_of_makes {edit : Edit} (hd : e.diagram.Consistent)
    (hmakes : edit.Makes e.diagram e'.diagram) (hh : e'.history = e.history.record edit) :
    e'.history.undo e'.diagram = (some edit, ⟨e.history.undoStack, [edit]⟩, e.diagram) ∧
      e'.undo.2.history.redo e'.undo.2.diagram =
        (some edit, ⟨edit :: e.history.undoStack, []⟩, e'.diagram) := by
  have hundo : e'.history.undo e'.diagram =
      (some edit, ⟨e.history.undoStack, [edit]⟩, e.diagram) := by
    simp only [History.undo, hh, History.record, hmakes.revert hd rfl]
  refine ⟨hundo, ?_⟩
  show (e'.history.undo e'.diagram).2.1.redo (e'.history.undo e'.diagram).2.2 = _
  rw [hundo]
  simp only [History.redo, hmakes.reapply]

/-- A click that is refused changes the message at most, and the mode where a transition has yet to
begin. Any other makes no edit, or one that is recorded, taken back and made again exactly. -/
theorem clickWith_reversible (options : WorkspaceOptions) (actions : List Action) (c : Coordinate)
    (label : String) :
    let e := after options actions
    match e.clickWith c label with
    | (.error err, e') =>
      e' = { e with
        dialogue := some err.message
        mode := if err = .noPendingEdge then .placingEdgeStart else e.mode }
    | (.ok (), e') =>
      (e'.diagram = e.diagram ∧ e'.history = e.history) ∨
        ∃ edit, e'.history.applied = e.history.applied ++ [edit] ∧ e'.history.redoStack = [] ∧
          (e'.history.undo e'.diagram).1 = some edit ∧ e'.undo.2.diagram = e.diagram ∧
          (e'.undo.2.history.redo e'.undo.2.diagram).1 = some edit ∧
          e'.undo.2.redo.2.diagram = e'.diagram := by
  intro e
  have hd : e.diagram.Consistent := (Fits.after options actions).consistent
  cases hclick : e.hush.applyClick c label with
  | error err =>
    have hmode : modeAfter e.mode err =
        if err = .noPendingEdge then .placingEdgeStart else e.mode := by
      cases err <;> rfl
    simp only [clickWith, hclick, hmode]
  | ok e' =>
    simp only [clickWith, hclick]
    rcases makes_of_applyClick (e := e.hush) hd hclick with hsame | ⟨edit, hmakes, hh⟩
    · exact .inl hsame
    · obtain ⟨hundo, hredo⟩ := undo_redo_of_makes (e := e.hush) hd hmakes hh
      refine .inr ⟨edit, ?_, ?_, congrArg Prod.fst hundo, ?_, congrArg Prod.fst hredo, ?_⟩
      · rw [hh]
        exact List.reverse_cons
      · rw [hh]
        rfl
      · exact congrArg (·.2.2) hundo
      · exact congrArg (·.2.2) hredo

theorem redoStack_redo (e : Editor) : e.redo.2.history.redoStack = e.history.redoStack.tail := by
  show (e.history.redo e.diagram).2.1.redoStack = _
  unfold History.redo
  split
  · rename_i hstack
    rw [hstack, List.tail_nil]
  · rename_i edit later hstack
    rw [hstack, List.tail_cons]
    split <;> rfl

/-- Redoes until there is nothing left to redo. -/
def redoAll (e : Editor) : Editor :=
  if e.history.canRedo then e.redo.2.redoAll else e
termination_by e.history.redoStack.length
decreasing_by
  rename_i h
  rw [redoStack_redo, List.length_tail]
  have hne : e.history.redoStack ≠ [] := by simpa [History.canRedo] using h
  have := List.length_pos_iff.mpr hne
  omega

/-- Redoing to the end makes every edit that had been taken back. -/
theorem redoAll_of_replays {d : Diagram} (h : Replays e.history.redoStack e.diagram d) :
    e.redoAll.diagram = d ∧
      e.redoAll.history = ⟨e.history.redoStack.reverse ++ e.history.undoStack, []⟩ := by
  generalize hstack : e.history.redoStack = stack at h
  induction stack generalizing e with
  | nil =>
    have hdone : e.history.canRedo = false := by simp [History.canRedo, hstack]
    cases h
    rw [redoAll, if_neg (by simp [hdone])]
    refine ⟨rfl, ?_⟩
    rw [List.reverse_nil, List.nil_append, ← hstack]
  | cons edit later ih =>
    have hmore : e.history.canRedo = true := by simp [History.canRedo, hstack]
    cases h with
    | @cons _ _ _ d₁ _ hmakes hrest =>
      have hredo : e.history.redo e.diagram =
          (some edit, ⟨edit :: e.history.undoStack, later⟩, d₁) := by
        simp only [History.redo, hstack, hmakes.reapply]
      have hdiagram : e.redo.2.diagram = d₁ := congrArg (·.2.2) hredo
      have hhistory : e.redo.2.history = ⟨edit :: e.history.undoStack, later⟩ :=
        congrArg (·.2.1) hredo
      obtain ⟨hd, hh⟩ := ih (by rw [hhistory]) (hdiagram ▸ hrest)
      rw [redoAll, if_pos hmore, hd, hh, hhistory, List.reverse_cons, List.append_assoc]
      exact ⟨rfl, rfl⟩

/-- Discarding takes the log for the diagram: redoing brings back the transitions as recorded, so
all that can be lost is what they were bent since. -/
theorem redoAll_discardAll (h : e.Fits) :
    e.discardAll.redoAll.history = ⟨e.history.undoStack, []⟩ ∧
      e.discardAll.redoAll.diagram =
        { e.diagram with edges := e.history.applied.filterMap Edit.edge? } ∧
      (e.history.applied.filterMap Edit.edge?).map Edge.unbent =
        e.diagram.edges.map Edge.unbent := by
  obtain ⟨d, hreplay, heq⟩ := h.explained
  have hredo : Replays e.discardAll.history.redoStack e.discardAll.diagram d := hreplay
  obtain ⟨hdiagram, hhistory⟩ := redoAll_of_replays hredo
  have hedges : d.edges = e.history.applied.filterMap Edit.edge? := hreplay.edges_eq
  obtain ⟨edges, hd, hbends⟩ := Diagram.unbent_eq_iff.mp heq.symm
  obtain rfl : edges = d.edges := by rw [hd]; rfl
  refine ⟨?_, ?_, ?_⟩
  · rw [hhistory]
    show History.mk (e.history.undoStack.reverse.reverse ++ []) [] = _
    rw [List.reverse_reverse, List.append_nil]
  · rw [hdiagram, ← hedges]
    exact hd
  · rw [← hedges, hbends]

/-- What discarding loses: redoing until nothing is left brings back the log, and the diagram with
the transitions as they were recorded. That is the diagram as it was exactly if no transition has
been bent since it was recorded. -/
theorem redoAll_discardAll_after (options : WorkspaceOptions) (actions : List Action) :
    let e := after options actions
    let back := e.discardAll.redoAll
    let recorded := e.history.applied.filterMap Edit.edge?
    back.history.canRedo = false ∧ back.history.applied = e.history.applied ∧
      back.diagram = { e.diagram with edges := recorded } ∧
      recorded.map Edge.unbent = e.diagram.edges.map Edge.unbent ∧
      (back.diagram = e.diagram ↔ recorded = e.diagram.edges) := by
  intro e back recorded
  obtain ⟨hhistory, hdiagram, hbends⟩ := redoAll_discardAll (Fits.after options actions)
  have hlog : back.history.applied = e.history.applied := by
    rw [hhistory]
    rfl
  refine ⟨congrArg History.canRedo hhistory, hlog, hdiagram, hbends, ?_⟩
  constructor
  · intro hsame
    exact congrArg Diagram.edges (hdiagram.symm.trans hsame)
  · intro hsame
    exact hdiagram.trans (congrArg (fun edges => { e.diagram with edges }) hsame)

/-- A transition that was bent comes back straight. -/
theorem redoAll_discardAll_ne :
    let e := after .initial
      [.click (.of 0 0), .click (.of 200 0), .setMode .placingEdgeStart, .click (.of 0 0),
        .click (.of 200 0), .select ⟨100, 0⟩, .drag (.of 100 (-80))]
    e.discardAll.redoAll.diagram ≠ e.diagram := by
  intro e hsame
  have hdiagram := (redoAll_discardAll (e := e) (Fits.after _ _)).2.1
  have hedges : e.history.applied.filterMap Edit.edge? = e.diagram.edges :=
    congrArg Diagram.edges (hdiagram.symm.trans hsame)
  revert hedges
  decide

end Editor

end AutomatonSketch
