import AutomatonSketch.Proofs.Failures
import AutomatonSketch.Proofs.Reopening

/-! The two ways in for a workspace: from a file and from an answer. Both take the same workspaces over,
and in the same way; but only a file brings the diagram back into view if a parse tree covers it. -/

namespace AutomatonSketch.App

/-- The same in all but the file that the workspace belongs to. -/
def AgreesUpToPath (a b : App) : Prop := { a with path := none } = { b with path := none }

/-- The diagram is what is shown. -/
def uncover (app : App) : App := { app with view := { app.view with showParseTree := false } }

theorem shownTree?_uncover (app : App) : app.uncover.shownTree? = none := rfl

theorem uncover_eq_self_iff (app : App) : app.uncover = app ↔ app.view.showParseTree = false := by
  constructor
  · intro h
    rw [← h]
    rfl
  · intro h
    rw [uncover, ← h]

theorem agreesUpToPath_iff (app : App) (path : Option String) :
    app.AgreesUpToPath { app.uncover with path } ↔ app.view.showParseTree = false := by
  have hsame := uncover_eq_self_iff { app with path := none }
  exact eq_comm.trans hsame

section Ways

variable (app : App) {data : Snapshot} {editor : Editor}

theorem applyAnswer_loaded (h : app.editor.restore data = .ok editor) :
    app.applyAnswer (.loaded (.ok data)) = app.takeOver editor := by
  show app.applyLoaded data = _
  simp only [applyLoaded, h]

theorem applyFileResult_workspaceRead {content : String} (path : String)
    (hread : Snapshot.ofText content = .ok data) (h : app.editor.restore data = .ok editor) :
    app.applyFileResult (.workspaceRead path content) =
      { (app.takeOver editor).uncover with path := some path } := by
  show app.applyWorkspaceText path content = _
  simp only [applyWorkspaceText, hread, Except.bind, h]
  rfl

theorem agreesUpToPath_ways_iff {content : String} (path : String)
    (hread : Snapshot.ofText content = .ok data) (h : app.editor.restore data = .ok editor) :
    (app.applyAnswer (.loaded (.ok data))).AgreesUpToPath
        (app.applyFileResult (.workspaceRead path content)) ↔ app.view.showParseTree = false := by
  rw [app.applyAnswer_loaded h, app.applyFileResult_workspaceRead path hread h]
  exact (app.takeOver editor).agreesUpToPath_iff (some path)

theorem applyAnswer_of_refused {e : WorkspaceError} (h : data.restore = .error e) :
    app.applyAnswer (.loaded (.ok data)) =
      app.say (StoreError.malformed Store.loadCommand e.message).message := by
  refine app.applyAnswer_of_complaint? ?_
  simp only [Answer.complaint?, h]

theorem applyFileResult_of_refused {content : String} (path : String) {e : WorkspaceError}
    (hread : Snapshot.ofText content = .ok data) (h : data.restore = .error e) :
    app.applyFileResult (.workspaceRead path content) =
      app.say ("Could not open " ++ path ++ ": " ++ e.message) := by
  refine app.applyFileResult_of_complaint? ?_
  simp only [FileResult.complaint?, hread, Except.bind, h]

end Ways

theorem exists_restore (e : Editor) {data : Snapshot} (h : data.Accepted) :
    ∃ editor, e.restore data = .ok editor := by
  have hdiagram : data.restore = .ok data.diagram := Snapshot.restore_eq_ok_iff.mpr ⟨h, rfl⟩
  cases hrestore : e.restore data with
  | ok editor => exact ⟨editor, rfl⟩
  | error err => simp [Editor.restore, hdiagram] at hrestore

/-- A workspace that an answer brings and one that is read from what is written for it are taken over
alike or refused alike. What they leave agrees but for the path and for the view: a parse tree that
covers the diagram goes on covering one that an answer brings. -/
theorem ways_in (app : App) (data : Snapshot) (path : String) :
    let answered := app.applyAnswer (.loaded (.ok data))
    data.form data.toJson ∧ ∀ j, data.form j → data.HasIndex →
      let read := app.applyFileResult (.workspaceRead path j.toText)
      (data.Accepted → ∃ editor, app.editor.restore data = .ok editor ∧
        answered = app.takeOver editor ∧ read = { answered.uncover with path := some path } ∧
        (answered.AgreesUpToPath read ↔ app.view.showParseTree = false) ∧
        answered.shownTree? = app.shownTree? ∧ read.shownTree? = none) ∧
      (¬ data.Accepted → ∃ e, data.restore = .error e ∧
        answered = app.say (StoreError.malformed Store.loadCommand e.message).message ∧
        read = app.say ("Could not open " ++ path ++ ": " ++ e.message)) := by
  refine ⟨data.form_toJson, ?_⟩
  intro j hj hindex read
  have hread : Snapshot.ofText j.toText = .ok data := (Snapshot.ofText_of_form hj).mpr hindex
  constructor
  · intro haccepted
    obtain ⟨editor, hrestore⟩ := exists_restore app.editor haccepted
    have hanswered := app.applyAnswer_loaded hrestore
    have hfile := app.applyFileResult_workspaceRead path hread hrestore
    refine ⟨editor, hrestore, hanswered, ?_, app.agreesUpToPath_ways_iff path hread hrestore, ?_, ?_⟩
    · rw [hanswered]
      exact hfile
    · rw [hanswered]
      rfl
    · show (app.applyFileResult _).shownTree? = none
      rw [hfile]
      exact (app.takeOver editor).shownTree?_uncover
  · intro hrefused
    obtain ⟨e, he⟩ := Snapshot.exists_error_of_not_accepted hrefused
    exact ⟨e, he, app.applyAnswer_of_refused he, app.applyFileResult_of_refused path hread he⟩

/-- A parse tree covers the diagram. -/
def covered : App :=
  after none .anonymous [.readFile (.parseTreeRead "t.json" "\x7b\"Literal\":\"a\"\x7d")]

theorem not_agreesUpToPath_covered :
    let data := Editor.initial.snapshot
    ¬ (covered.applyAnswer (.loaded (.ok data))).AgreesUpToPath
      (covered.applyFileResult (.workspaceRead "w.json" data.toText)) := by
  intro data hagrees
  have hcovered : covered.view.showParseTree = true := by decide +kernel
  have hfits : Editor.initial.Fits := History.Fits.empty
  have hrestore := hfits.restore_snapshot covered.editor
  have hread := (Snapshot.ofText_of_form data.form_toJson).mpr
    (hfits.consistent.hasIndex_capture Editor.initial.options)
  have huncovered := (covered.agreesUpToPath_ways_iff "w.json" hread hrestore).mp hagrees
  exact Bool.false_ne_true (huncovered.symm.trans hcovered)

end AutomatonSketch.App
