import AutomatonSketch.Editor.Basic
import AutomatonSketch.Proofs.Restored
import AutomatonSketch.Proofs.Verify

/-! Runs of the editor. After any row of actions the history fits the diagram, so the diagram is
consistent. -/

namespace AutomatonSketch

namespace Editor

inductive Action where
  | setMode (mode : EditorMode)
  | click (c : Coordinate)
  | clickWith (c : Coordinate) (label : String)
  | preview (c : Coordinate)
  | select (p : Point)
  | drag (c : Coordinate)
  | undo
  | redo
  | discardAll
  | restore (data : Snapshot)
  | setOptions (options : WorkspaceOptions)
  | say (message : String)
  | hush

/-- An action that is refused or finds nothing to act on still counts. -/
def perform (e : Editor) : Action → Editor
  | .setMode mode => e.setMode mode
  | .click c => (e.click c).2
  | .clickWith c label => (e.clickWith c label).2
  | .preview c => e.previewPendingEdge c
  | .select p => (e.selectCurveAt p).2
  | .drag c => (e.dragSelectedCurve? c).getD e
  | .undo => e.undo.2
  | .redo => e.redo.2
  | .discardAll => e.discardAll
  | .restore data =>
    match e.restore data with
    | .ok restored => restored
    | .error _ => e
  | .setOptions options => { e with options }
  | .say message => e.say message
  | .hush => e.hush

/-- The editor that a row of actions makes of an empty one. -/
def after (options : WorkspaceOptions) (actions : List Action) : Editor :=
  actions.foldl perform (withOptions options)

/-- The edits of an editor fit its diagram. -/
def Fits (e : Editor) : Prop := e.history.Fits e.diagram

section Clicks

variable {e e' : Editor} {c : Coordinate}

theorem makes_of_placeNode {isStart : Bool} (h : e.placeNode c isStart = .ok e') :
    ∃ edit : Edit, edit.Makes e.diagram e'.diagram ∧ e'.history = e.history.record edit := by
  unfold placeNode at h
  split at h
  · rename_i placement d hadd
    obtain rfl := Except.ok.inj h
    exact ⟨_, .of_addNode hadd, rfl⟩
  · exact absurd h (by simp)

theorem makes_of_markFinal (hd : e.diagram.Consistent) (h : e.markFinal c = .ok e') :
    ∃ edit : Edit, edit.Makes e.diagram e'.diagram ∧ e'.history = e.history.record edit := by
  unfold markFinal at h
  split at h
  · rename_i n d hmark
    obtain rfl := Except.ok.inj h
    exact ⟨_, .of_markFinal hd.framed hmark, rfl⟩
  · exact absurd h (by simp)

theorem makes_of_finishEdge (hd : e.diagram.Consistent) {pending : Edge}
    (h : e.finishEdge pending c = .ok e') :
    ∃ edit : Edit, edit.Makes e.diagram e'.diagram ∧ e'.history = e.history.record edit := by
  unfold finishEdge at h
  split at h
  · rename_i edge d hcomplete
    obtain rfl := Except.ok.inj h
    exact ⟨_, .of_completeEdge hd.framed hcomplete, rfl⟩
  · exact absurd h (by simp)

theorem same_of_startEdge {label : String} (h : e.startEdge c label = .ok e') :
    e'.diagram = e.diagram ∧ e'.history = e.history := by
  unfold startEdge at h
  split at h
  · obtain rfl := Except.ok.inj h
    exact ⟨rfl, rfl⟩
  · exact absurd h (by simp)

/-- A click makes one edit, which is recorded, or none. -/
theorem makes_of_applyClick (hd : e.diagram.Consistent) {label : String}
    (h : e.applyClick c label = .ok e') :
    (e'.diagram = e.diagram ∧ e'.history = e.history) ∨
      ∃ edit : Edit, edit.Makes e.diagram e'.diagram ∧ e'.history = e.history.record edit := by
  unfold applyClick at h
  split at h
  · exact .inr (makes_of_placeNode h)
  · cases hplace : e.placeNode c true with
    | error err => simp [hplace, Except.map] at h
    | ok placed =>
      simp only [hplace, Except.map, Except.ok.injEq] at h
      subst h
      obtain ⟨edit, hmakes, hh⟩ := makes_of_placeNode hplace
      exact .inr ⟨edit, hmakes, hh⟩
  · exact .inr (makes_of_markFinal hd h)
  · exact .inl (same_of_startEdge h)
  · exact .inl (same_of_startEdge h)
  · split at h
    · exact .inr (makes_of_finishEdge hd h)
    · exact absurd h (by simp)
  · obtain rfl := Except.ok.inj h
    exact .inl ⟨rfl, rfl⟩
  · obtain rfl := Except.ok.inj h
    exact .inl ⟨rfl, rfl⟩

end Clicks

/-- Dragging changes the diagram at most. -/
theorem exists_drag (e : Editor) (c : Coordinate) :
    ∃ diagram, (e.dragSelectedCurve? c).getD e = { e with diagram } := by
  unfold dragSelectedCurve?
  split
  · exact ⟨e.diagram, rfl⟩
  · split
    · cases e.diagram.setEdgeControl? _ c with
      | none => exact ⟨e.diagram, rfl⟩
      | some d => exact ⟨d, rfl⟩
    · exact ⟨e.diagram, rfl⟩

/-- Dragging a curve only bends it. -/
theorem unbent_drag (e : Editor) (c : Coordinate) :
    let dragged := (e.dragSelectedCurve? c).getD e
    e.diagram.unbent = dragged.diagram.unbent ∧ dragged.history = e.history := by
  unfold dragSelectedCurve?
  split
  · exact ⟨rfl, rfl⟩
  · rename_i i _
    split
    · cases hbent : e.diagram.setEdgeControl? i c with
      | none => exact ⟨rfl, rfl⟩
      | some d => exact ⟨Diagram.unbent_setEdgeControl? hbent, rfl⟩
    · exact ⟨rfl, rfl⟩

namespace Fits

variable {e : Editor}

theorem consistent (h : e.Fits) : e.diagram.Consistent := History.Fits.consistent h

theorem of_same {e' : Editor} (h : e.Fits) (hd : e'.diagram = e.diagram)
    (hh : e'.history = e.history) : e'.Fits := by
  rw [Fits, hd, hh]
  exact h

theorem clickWith (h : e.Fits) (c : Coordinate) (label : String) : (e.clickWith c label).2.Fits := by
  unfold Editor.clickWith
  split
  · rename_i e' hclick
    rcases makes_of_applyClick (e := e.hush) h.consistent hclick with ⟨hd, hh⟩ | ⟨edit, hmakes, hh⟩
    · exact h.of_same hd hh
    · rw [Fits, hh]
      exact History.Fits.record h hmakes
  · exact h

theorem drag (h : e.Fits) (c : Coordinate) : ((e.dragSelectedCurve? c).getD e).Fits := by
  obtain ⟨hd, hh⟩ := unbent_drag e c
  rw [Fits, hh]
  exact History.Fits.bend h hd

theorem undo (h : e.Fits) : e.undo.2.Fits := by
  show (e.history.undo e.diagram).2.1.Fits (e.history.undo e.diagram).2.2
  cases hstack : e.history.undoStack with
  | nil =>
    simp only [History.undo, hstack]
    exact h
  | cons recorded older =>
    obtain ⟨edit, d₀, _, _, hundo, hfits⟩ := History.Fits.undo h hstack
    rw [hundo]
    exact hfits

theorem redo (h : e.Fits) : e.redo.2.Fits := by
  show (e.history.redo e.diagram).2.1.Fits (e.history.redo e.diagram).2.2
  cases hstack : e.history.redoStack with
  | nil =>
    simp only [History.redo, hstack]
    exact h
  | cons edit later =>
    obtain ⟨d', _, hredo, hfits⟩ := History.Fits.redo h hstack
    rw [hredo]
    exact hfits

theorem restore {data : Snapshot} {restored : Editor} (h : e.restore data = .ok restored) :
    restored.Fits := by
  unfold Editor.restore at h
  split at h
  · exact absurd h (by simp)
  · rename_i d hd
    obtain rfl := Except.ok.inj h
    exact History.Fits.ofDiagram hd

theorem perform (h : e.Fits) (action : Action) : (e.perform action).Fits := by
  cases action with
  | click c => exact h.clickWith c _
  | clickWith c label => exact h.clickWith c label
  | select p =>
    show (e.selectCurveAt p).2.Fits
    unfold selectCurveAt
    split <;> exact h
  | drag c => exact h.drag c
  | undo => exact h.undo
  | redo => exact h.redo
  | discardAll => exact History.Fits.discardAll h
  | restore data =>
    cases hrestore : e.restore data with
    | ok restored =>
      simp only [Editor.perform, hrestore]
      exact Fits.restore hrestore
    | error err =>
      simp only [Editor.perform, hrestore]
      exact h
  | setMode | preview | setOptions | say | hush => exact h

theorem after (options : WorkspaceOptions) (actions : List Action) :
    (Editor.after options actions).Fits := by
  have hrun {e : Editor} (h : e.Fits) : (actions.foldl Editor.perform e).Fits := by
    induction actions generalizing e with
    | nil => exact h
    | cons action actions ih => exact ih (h.perform action)
  exact hrun History.Fits.empty

end Fits

/-- Whatever is done to an editor, its diagram stays consistent, and the check finds nothing. -/
theorem consistent_after (options : WorkspaceOptions) (actions : List Action) :
    (after options actions).diagram.Consistent ∧ (after options actions).diagram.verify = .ok () :=
  ⟨(Fits.after options actions).consistent, (Fits.after options actions).consistent.verify_eq_ok⟩

end Editor

end AutomatonSketch
