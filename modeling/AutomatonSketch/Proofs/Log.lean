import AutomatonSketch.Proofs.Rewind

/-! The log of an editor. Made again from the empty diagram, the edits in force lead to what is
drawn, bends apart, and the edits taken back lead on from there. So no edit is ever lost. -/

namespace AutomatonSketch

/-- Makes edits again one after another; `none` if there is no room for one of them. -/
def Diagram.reapplyAll? (d : Diagram) : List Edit → Option Diagram
  | [] => some d
  | edit :: edits =>
    match d.reapply edit with
    | (some _, d) => d.reapplyAll? edits
    | (none, _) => none

theorem Replays.reapplyAll?_eq {edits : List Edit} {d d' : Diagram} (h : Replays edits d d') :
    d.reapplyAll? edits = some d' := by
  induction h with
  | nil d => rfl
  | cons hfirst _ ih => simpa only [Diagram.reapplyAll?, hfirst.reapply] using ih

namespace Editor

namespace Fits

variable {e : Editor}

/-- Undoing moves the newest edit from one stack to the other, if there is one. -/
theorem undo_moves (h : e.Fits) : e.reverted?.isSome = e.history.canUndo ∧
    e.undo.2.history = ⟨e.history.undoStack.tail, e.reverted?.toList ++ e.history.redoStack⟩ := by
  cases hstack : e.history.undoStack with
  | nil =>
    have hundo : e.history.undo e.diagram = (none, e.history, e.diagram) := by
      simp only [History.undo, hstack]
    have hreverted : e.reverted? = none := congrArg Prod.fst hundo
    have hhistory : e.undo.2.history = e.history := congrArg (·.2.1) hundo
    rw [hreverted, hhistory, History.canUndo, hstack]
    exact ⟨rfl, congrArg (History.mk · e.history.redoStack) hstack⟩
  | cons recorded older =>
    obtain ⟨edit, hreverted, _, _, hhistory⟩ := h.undo_cons hstack
    rw [hreverted, hhistory, History.canUndo, hstack]
    exact ⟨rfl, rfl⟩

/-- Redoing moves the edit taken back last from one stack to the other, if there is one. -/
theorem redo_moves (h : e.Fits) : e.replayed?.isSome = e.history.canRedo ∧
    e.redo.2.history = ⟨e.replayed?.toList ++ e.history.undoStack, e.history.redoStack.tail⟩ := by
  cases hstack : e.history.redoStack with
  | nil =>
    have hredo : e.history.redo e.diagram = (none, e.history, e.diagram) := by
      simp only [History.redo, hstack]
    have hreplayed : e.replayed? = none := congrArg Prod.fst hredo
    have hhistory : e.redo.2.history = e.history := congrArg (·.2.1) hredo
    rw [hreplayed, hhistory, History.canRedo, hstack]
    exact ⟨rfl, congrArg (History.mk e.history.undoStack) hstack⟩
  | cons edit later =>
    obtain ⟨d, _, hredo, _⟩ := History.Fits.redo h hstack
    have hreplayed : e.replayed? = some edit := congrArg Prod.fst hredo
    have hhistory : e.redo.2.history = ⟨edit :: e.history.undoStack, later⟩ :=
      congrArg (·.2.1) hredo
    rw [hreplayed, hhistory, History.canRedo, hstack]
    exact ⟨rfl, rfl⟩

end Fits

/-- The log explains the diagram: from the empty one it leads to what is drawn, bends apart, and the
edits taken back lead on from there. Hence undoing and redoing only move edits between the stacks,
and a diagram without edits is empty. -/
theorem log_explains_after (options : WorkspaceOptions) (actions : List Action) :
    let e := after options actions
    (∃ d, Diagram.empty.reapplyAll? e.history.applied = some d ∧ d.unbent = e.diagram.unbent) ∧
      (∃ d, e.diagram.reapplyAll? e.history.redoStack = some d) ∧
      (e.reverted?.isSome = e.history.canUndo ∧ e.undo.2.history =
        ⟨e.history.undoStack.tail, e.reverted?.toList ++ e.history.redoStack⟩) ∧
      (e.replayed?.isSome = e.history.canRedo ∧ e.redo.2.history =
        ⟨e.replayed?.toList ++ e.history.undoStack, e.history.redoStack.tail⟩) ∧
      (e.diagram = .empty ↔ e.history.applied = []) := by
  intro e
  have h : e.Fits := Fits.after options actions
  obtain ⟨d, hreplay, heq⟩ := h.explained
  obtain ⟨d', hredo⟩ := h.replayable
  refine ⟨⟨d, hreplay.reapplyAll?_eq, heq⟩, ⟨d', hredo.reapplyAll?_eq⟩, h.undo_moves,
    h.redo_moves, ?_⟩
  rw [h.diagram_eq_empty_iff, History.applied, List.reverse_eq_nil_iff]

end Editor

end AutomatonSketch
