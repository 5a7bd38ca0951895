import AutomatonSketch.Proofs.EditorRuns
import Mathlib.Logic.Function.Iterate

/-! Rows of undos and redos. Every undo finds the edit it takes back and every redo has room for the
edit it makes again, so a row of redos retraces a row of undos diagram by diagram. -/

namespace AutomatonSketch

namespace Editor

/-- The edit that undoing takes back; `none` if nothing is taken back. -/
def reverted? (e : Editor) : Option Edit := (e.history.undo e.diagram).1

/-- The edit that redoing makes again; `none` if nothing is made again. -/
def replayed? (e : Editor) : Option Edit := (e.history.redo e.diagram).1

/-- The editor after a number of undos. -/
def undone (e : Editor) (k : Nat) : Editor := (fun e => e.undo.2)^[k] e

/-- The editor after a number of redos. -/
def redone (e : Editor) (k : Nat) : Editor := (fun e => e.redo.2)^[k] e

theorem undone_succ (e : Editor) (k : Nat) : e.undone (k + 1) = (e.undone k).undo.2 :=
  Function.iterate_succ_apply' ..

theorem redone_succ (e : Editor) (k : Nat) : e.redone (k + 1) = (e.redone k).redo.2 :=
  Function.iterate_succ_apply' ..

theorem undoStack_undo (e : Editor) : e.undo.2.history.undoStack = e.history.undoStack.tail := by
  show (e.history.undo e.diagram).2.1.undoStack = _
  unfold History.undo
  split
  · rename_i hstack
    rw [hstack, List.tail_nil]
  · rename_i edit older hstack
    rw [hstack, List.tail_cons]
    split <;> rfl

theorem undoStack_undone (e : Editor) (k : Nat) :
    (e.undone k).history.undoStack = e.history.undoStack.drop k := by
  induction k with
  | zero => rfl
  | succ k ih => rw [undone_succ, undoStack_undo, ih, List.tail_drop]

/-- What redoing looks at: the diagram and the edits taken back. -/
def AgreeAhead (e e' : Editor) : Prop :=
  e.diagram = e'.diagram ∧ e.history.redoStack = e'.history.redoStack

namespace Fits

variable {e e' : Editor}

/-- One undo: the edit that led to the diagram moves from one stack to the other. -/
theorem undo_cons (h : e.Fits) {recorded : Edit} {older : List Edit}
    (hstack : e.history.undoStack = recorded :: older) :
    ∃ edit, e.reverted? = some edit ∧ edit.unbent = recorded.unbent ∧
      edit.Makes e.undo.2.diagram e.diagram ∧
      e.undo.2.history = ⟨older, edit :: e.history.redoStack⟩ := by
  obtain ⟨edit, d₀, hmakes, hedit, hundo, _⟩ := History.Fits.undo h hstack
  have hdiagram : e.undo.2.diagram = d₀ := congrArg (·.2.2) hundo
  exact ⟨edit, congrArg Prod.fst hundo, hedit, hdiagram ▸ hmakes, congrArg (·.2.1) hundo⟩

/-- Redoing right after undoing makes the edit again that was taken back. -/
theorem redo_undo (h : e.Fits) (hne : e.history.undoStack ≠ []) (hahead : AgreeAhead e' e.undo.2) :
    e'.replayed? = e.reverted? ∧ AgreeAhead e'.redo.2 e := by
  obtain ⟨recorded, older, hstack⟩ := List.exists_cons_of_ne_nil hne
  obtain ⟨edit, hreverted, _, hmakes, hhistory⟩ := h.undo_cons hstack
  obtain ⟨hdiagram, hredoStack⟩ := hahead
  rw [hhistory] at hredoStack
  rw [← hdiagram] at hmakes
  have hredo : e'.history.redo e'.diagram =
      (some edit, ⟨edit :: e'.history.undoStack, e.history.redoStack⟩, e.diagram) := by
    simp only [History.redo, hredoStack, hmakes.reapply]
  exact ⟨(congrArg Prod.fst hredo).trans hreverted.symm, congrArg (·.2.2) hredo,
    congrArg (·.2.1.redoStack) hredo⟩

theorem diagram_eq_empty_iff (h : e.Fits) : e.diagram = .empty ↔ e.history.undoStack = [] := by
  constructor
  · intro hempty
    cases hstack : e.history.undoStack with
    | nil => rfl
    | cons recorded older =>
      obtain ⟨edit, _, _, hmakes, _⟩ := h.undo_cons hstack
      have hnodes := hmakes.order_ne_nil h.undo.consistent
      rw [hempty] at hnodes
      exact absurd rfl hnodes
  · intro hstack
    obtain ⟨d, hreplay, heq⟩ := h.explained
    rw [History.applied, hstack] at hreplay
    cases hreplay
    obtain ⟨edges, hd, hedges⟩ := Diagram.unbent_eq_iff.mp heq
    obtain rfl : edges = [] := List.map_eq_nil_iff.mp hedges.symm
    exact hd

theorem undone (h : e.Fits) (k : Nat) : (e.undone k).Fits := by
  induction k with
  | zero => exact h
  | succ k ih =>
    rw [undone_succ]
    exact ih.undo

theorem exists_reverted (h : e.Fits) {k : Nat} {recorded : Edit}
    (hk : e.history.undoStack[k]? = some recorded) :
    ∃ edit, (e.undone k).reverted? = some edit ∧ edit.unbent = recorded.unbent := by
  obtain ⟨hlength, hget⟩ := List.getElem?_eq_some_iff.mp hk
  have hstack : (e.undone k).history.undoStack = recorded :: e.history.undoStack.drop (k + 1) := by
    rw [undoStack_undone, List.drop_eq_getElem_cons hlength, hget]
  obtain ⟨edit, hreverted, hedit, _⟩ := (h.undone k).undo_cons hstack
  exact ⟨edit, hreverted, hedit⟩

/-- A redo that sees what `i + 1` undos left leads to where `i` undos led. -/
theorem redo_undone_succ (h : e.Fits) {i : Nat} (hi : i < e.history.undoStack.length)
    (hahead : AgreeAhead e' (e.undone (i + 1))) :
    e'.replayed? = (e.undone i).reverted? ∧ AgreeAhead e'.redo.2 (e.undone i) := by
  have hne : (e.undone i).history.undoStack ≠ [] := by
    rw [undoStack_undone]
    simpa only [ne_eq, List.drop_eq_nil_iff, Nat.not_le] using hi
  exact (h.undone i).redo_undo hne (undone_succ e i ▸ hahead)

/-- The induction is on the redos: each of them meets the latest undo that is still standing. -/
theorem redone_undone (h : e.Fits) {k j : Nat} (hk : k ≤ e.history.undoStack.length)
    (hj : j ≤ k) : AgreeAhead ((e.undone k).redone j) (e.undone (k - j)) := by
  induction j with
  | zero => exact ⟨rfl, rfl⟩
  | succ j ih =>
    have hplace : k - j = k - (j + 1) + 1 := by omega
    have hahead := ih (by omega)
    rw [hplace] at hahead
    rw [redone_succ]
    exact (h.redo_undone_succ (by omega) hahead).2

theorem replayed?_redone_undone (h : e.Fits) {k j : Nat} (hk : k ≤ e.history.undoStack.length)
    (hj : j < k) :
    ((e.undone k).redone j).replayed? = (e.undone (k - (j + 1))).reverted? := by
  have hplace : k - j = k - (j + 1) + 1 := by omega
  have hahead := h.redone_undone hk (Nat.le_of_lt hj)
  rw [hplace] at hahead
  exact (h.redo_undone_succ (by omega) hahead).1

end Fits

/-- Any number of edits can be taken back, the newest first, and as many redos make them again. On
the way back the same diagrams come up, bends included, and without edits nothing is left. -/
theorem redone_undone_after (options : WorkspaceOptions) (actions : List Action) {k : Nat}
    (hk : k ≤ (after options actions).history.applied.length) :
    let e := after options actions
    (∀ j < k, ∃ edit recorded, e.history.undoStack[j]? = some recorded ∧
        (e.undone j).reverted? = some edit ∧ edit.unbent = recorded.unbent) ∧
      (∀ j ≤ k, (e.undone j).diagram.Consistent) ∧
      (∀ j < k, ∃ edit, ((e.undone k).redone j).replayed? = some edit ∧
        (e.undone (k - (j + 1))).reverted? = some edit) ∧
      (∀ j ≤ k, ((e.undone k).redone j).diagram = (e.undone (k - j)).diagram) ∧
      ((e.undone k).redone k).diagram = e.diagram ∧
      (k = e.history.applied.length → (e.undone k).diagram = .empty) := by
  intro e
  have h : e.Fits := Fits.after options actions
  have hlength : e.history.applied.length = e.history.undoStack.length := List.length_reverse
  have hk' : k ≤ e.history.undoStack.length := hlength ▸ hk
  have hreverted (j : Nat) (hj : j < k) : ∃ edit recorded, e.history.undoStack[j]? = some recorded ∧
      (e.undone j).reverted? = some edit ∧ edit.unbent = recorded.unbent := by
    have hrecorded := List.getElem?_eq_getElem (show j < e.history.undoStack.length by omega)
    obtain ⟨edit, hedit, hsame⟩ := h.exists_reverted hrecorded
    exact ⟨edit, _, hrecorded, hedit, hsame⟩
  refine ⟨hreverted, fun j _ => (h.undone j).consistent, ?_, ?_, ?_, ?_⟩
  · intro j hj
    obtain ⟨edit, _, _, hedit, _⟩ := hreverted (k - (j + 1)) (by omega)
    exact ⟨edit, (h.replayed?_redone_undone hk' hj).trans hedit, hedit⟩
  · exact fun j hj => (h.redone_undone hk' hj).1
  · have hback := (h.redone_undone hk' (Nat.le_refl k)).1
    rwa [Nat.sub_self] at hback
  · intro hall
    rw [(h.undone k).diagram_eq_empty_iff, undoStack_undone, List.drop_eq_nil_iff]
    omega

/-- A start state that displaces another one, a transition that is bent after it was drawn, and a
loop drawn twice with one label. -/
def bentDrawn : List Action :=
  [.setMode .addingStartNode, .click (.of 0 0), .setMode .addingStartNode, .click (.of 200 0),
    .setMode .placingEdgeStart, .click (.of 200 0), .click (.of 0 0), .select ⟨100, 0⟩,
    .drag (.of 100 (-80)), .setMode .placingEdgeStart, .click (.of 0 0), .click (.of 0 0),
    .click (.of 0 0), .click (.of 0 0), .setMode .addingFinalNode, .click (.of 0 0)]

theorem redone_undone_after_bentDrawn :
    let e := after .initial bentDrawn
    5 ≤ e.history.applied.length ∧ ((e.undone 5).redone 5).diagram = e.diagram ∧
      (e.undone 5).diagram.start = some (Coordinate.of 0 0).key ∧
      (e.undone 6).diagram = .empty := by
  intro e
  have h5 : 5 ≤ e.history.applied.length := by decide +kernel
  have h6 : 6 ≤ e.history.applied.length := by decide +kernel
  obtain ⟨_, _, _, _, hback, _⟩ := redone_undone_after .initial bentDrawn h5
  obtain ⟨_, _, _, _, _, hall⟩ := redone_undone_after .initial bentDrawn h6
  exact ⟨h5, hback, by decide +kernel, hall (by decide +kernel)⟩

end Editor

end AutomatonSketch
