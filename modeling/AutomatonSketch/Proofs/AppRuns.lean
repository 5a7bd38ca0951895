import AutomatonSketch.Format.App
import AutomatonSketch.Proofs.EditorRuns
import AutomatonSketch.Window.Frame
import Mathlib.Logic.Function.Iterate

/-! Runs of the application. Whatever happens to it, its editor goes through a row of editor
actions; and what changes the drawing clears the result of the last string check. -/

namespace AutomatonSketch

namespace Editor

/-- A row of actions makes the second editor of the first. -/
def Leads (e e' : Editor) : Prop := ∃ actions : List Action, actions.foldl perform e = e'

namespace Leads

variable {e e₁ e' : Editor}

theorem refl (e : Editor) : Leads e e := ⟨[], rfl⟩

theorem perform (e : Editor) (action : Action) : Leads e (e.perform action) := ⟨[action], rfl⟩

theorem trans (h : Leads e e₁) (h' : Leads e₁ e') : Leads e e' := by
  obtain ⟨actions, rfl⟩ := h
  obtain ⟨actions', rfl⟩ := h'
  exact ⟨actions ++ actions', List.foldl_append⟩

theorem fits (h : Leads e e') (he : e.Fits) : e'.Fits := by
  obtain ⟨actions, rfl⟩ := h
  induction actions generalizing e with
  | nil => exact he
  | cons action actions ih => exact ih (he.perform action)

end Leads

theorem diagram_of_refused {e e' : Editor} {c : Coordinate} {err : EditError}
    (h : e.click c = (.error err, e')) : e'.diagram = e.diagram := by
  unfold click clickWith at h
  split at h
  · simp at h
  · rw [← (Prod.mk.inj h).2]

end Editor

namespace App

/-- What can happen to the application: the window's controls and fields, the canvas, the shortcuts,
requests, the arrival of answers, and outcomes of file operations. -/
inductive Action where
  | press (c : Control)
  | edit (text : String) (f : Field)
  | leave (f : Field)
  | click (p : Point)
  | frame (size : CanvasSize) (input : PointerInput)
  | undo
  | redo
  | save
  | load
  | receive
  | readFile (result : FileResult)

def receiveNext (app : App) : App :=
  match app.answers with
  | [] => app
  | answer :: later => { app with answers := later }.receive answer

def perform (app : App) : Action → App
  | .press c => app.press c
  | .edit text f => app.edit text f
  | .leave f => app.leaveField f
  | .click p => app.clickWorld p
  | .frame size input => app.canvasFrame size input
  | .undo => app.undo.2
  | .redo => app.redo.2
  | .save => app.requestSave
  | .load => app.requestLoad
  | .receive => app.receiveNext
  | .readFile result => app.applyFileResult result

/-- The application after what has happened to it since it started. -/
def after (stored : Option String) (environment : Session) (actions : List Action) : App :=
  actions.foldl perform (start stored environment)

/-- A request takes the editor and the fields as they are. -/
theorem editor_askIfOpen (app : App) {α : Type} (wrap : Except StoreError α → Answer)
    (request : Store → Session → Except StoreError α × Store) :
    (app.askIfOpen wrap request).editor = app.editor := by
  unfold askIfOpen
  split <;> rfl

theorem inputs_askIfOpen (app : App) {α : Type} (wrap : Except StoreError α → Answer)
    (request : Store → Session → Except StoreError α × Store) :
    (app.askIfOpen wrap request).inputs = app.inputs := by
  unfold askIfOpen
  split <;> rfl

theorem receive_withAnswers (app : App) (answer : Answer) (later : List Answer) :
    { app with answers := later }.receive answer =
      { app.receive answer with answers := later } := by
  cases answer with
  | checked result =>
    cases result with
    | error e => rfl
    | ok checked =>
      show applyChecked _ _ = { applyChecked _ _ with answers := later }
      unfold applyChecked
      split <;> rfl
  | loaded result =>
    cases result with
    | error e => rfl
    | ok data =>
      show applyLoaded _ _ = { applyLoaded _ _ with answers := later }
      unfold applyLoaded
      dsimp only
      split <;> rfl
  | saved result | alphabetUpdated result | strictUpdated result | traversalUpdated result
  | edgeLabelUpdated result => cases result <;> rfl

/-- Applying all that wait is applying the oldest, again and again. -/
theorem drain_eq_iterate (app : App) : app.drain = receiveNext^[app.answers.length] app := by
  have hrun (answers : List Answer) (app : App) : answers.foldl receive { app with answers := [] } =
      receiveNext^[answers.length] { app with answers } := by
    induction answers generalizing app with
    | nil => rfl
    | cons answer later ih =>
      rw [List.foldl_cons, List.length_cons, Function.iterate_succ_apply, receive_withAnswers, ih]
      congr 1
      exact (receive_withAnswers app answer later).symm
  exact hrun app.answers app

/-- The canvas as a frame moves it, before the pointer is looked at. -/
def moved (app : App) (size : CanvasSize) (input : PointerInput) : App :=
  ((app.centre size).pan input).turnWheel size input

/-- The point of the plane that is clicked in a frame, if one is. -/
def clickedIn (app : App) (size : CanvasSize) (input : PointerInput) : Option Point :=
  if (app.moved size input).shownTree?.isSome || !input.clicks then none
  else input.position.map (app.moved size input).view.toWorld

theorem moved_rel {R : App → App → Prop} (hrefl : ∀ app, R app app)
    (htrans : ∀ {app app₁ app'}, R app app₁ → R app₁ app' → R app app')
    (hview : ∀ (app : App) view panFrom, R app { app with view, panFrom }) (app : App)
    (size : CanvasSize) (input : PointerInput) : R app (app.moved size input) := by
  have hcentre (app : App) : R app (app.centre size) := by
    unfold App.centre
    split
    · exact hrefl app
    · exact hview app _ app.panFrom
  have hpan (app : App) : R app (app.pan input) := by
    unfold App.pan
    split
    · split
      · exact hrefl app
      · exact hview app app.view _
      · exact hview app _ _
    · exact hview app app.view none
  have hwheel (app : App) : R app (app.turnWheel size input) := by
    unfold App.turnWheel
    split
    · exact hview app _ app.panFrom
    · exact hrefl app
  exact htrans (htrans (hcentre app) (hpan _)) (hwheel _)

theorem trackPointer_rel {R : App → App → Prop}
    (htrans : ∀ {app app₁ app'}, R app app₁ → R app₁ app' → R app app')
    (hhover : ∀ (app : App) hover, R app { app with hover })
    (hfollow : ∀ (app : App) target, R app (app.follow target)) (app : App) (size : CanvasSize)
    (input : PointerInput) : R app (app.trackPointer size input) := by
  unfold App.trackPointer
  dsimp only
  split
  · exact htrans (hhover app _) (hfollow _ _)
  · exact hhover app _

/-- A frame moves the view, lets what is being drawn follow the pointer, and clicks. -/
theorem canvasFrame_rel {R : App → App → Prop} (hrefl : ∀ app, R app app)
    (htrans : ∀ {app app₁ app'}, R app app₁ → R app₁ app' → R app app')
    (hview : ∀ (app : App) view panFrom hover, R app { app with view, panFrom, hover })
    (hfollow : ∀ (app : App) target, R app (app.follow target))
    (hclick : ∀ (app : App) p, R app (app.clickWorld p)) (app : App) (size : CanvasSize)
    (input : PointerInput) : R app (app.canvasFrame size input) := by
  have hmoved : R app (app.moved size input) :=
    moved_rel hrefl htrans (fun app _ _ => hview app _ _ app.hover) app size input
  have htrack (app : App) : R app (app.trackPointer size input) :=
    trackPointer_rel (R := R) htrans (fun app _ => hview app _ _ _) hfollow app size input
  have hclicked (app : App) : R app (app.clickCanvas input) := by
    unfold App.clickCanvas
    split
    · split
      · exact hclick app _
      · exact hrefl app
    · exact hrefl app
  show R app (if (app.moved size input).shownTree?.isSome then app.moved size input
    else ((app.moved size input).trackPointer size input).clickCanvas input)
  split
  · exact hmoved
  · exact htrans (htrans hmoved (htrack _)) (hclicked _)

/-- The result of the last string check and its highlights are gone. -/
def Cleared (app : App) : Prop := app.lastCheck = none ∧ app.highlighted = []

/-- The drawing, bends apart, and the result of the last string check are as they were; highlights
may have been switched off. -/
structure Kept (app app' : App) : Prop where
  drawing : app.editor.diagram.unbent = app'.editor.diagram.unbent
  lastCheck : app'.lastCheck = app.lastCheck
  highlighted : app'.highlighted ⊆ app.highlighted

def checks (answers : List Answer) : List (Except StoreError CheckedString) :=
  answers.filterMap fun
    | .checked result => some result
    | _ => none

/-- What a step can do that neither requests nor answers a string check. -/
structure Step (app app' : App) : Prop where
  editor : app.editor.Leads app'.editor
  result : app'.Cleared ∨ app.Kept app'
  waiting : checks app'.answers = checks app.answers

namespace Step

variable {app app₁ app' : App}

theorem trans (h : app.Step app₁) (h' : app₁.Step app') : app.Step app' := by
  refine ⟨h.editor.trans h'.editor, ?_, h'.waiting.trans h.waiting⟩
  -- A result that was cleared stays cleared: no step of this kind brings one back.
  rcases h'.result with hcleared | hkept'
  · exact .inl hcleared
  · rcases h.result with ⟨hcheck, hnone⟩ | hkept
    · have hnone' : app'.highlighted = [] := List.subset_nil.mp (hnone ▸ hkept'.highlighted)
      exact .inl ⟨hkept'.lastCheck.trans hcheck, hnone'⟩
    · exact .inr ⟨hkept.drawing.trans hkept'.drawing, hkept'.lastCheck.trans hkept.lastCheck,
        List.Subset.trans hkept'.highlighted hkept.highlighted⟩

theorem of_same (he : app'.editor = app.editor) (hl : app'.lastCheck = app.lastCheck)
    (hh : app'.highlighted = app.highlighted) (ha : app'.answers = app.answers) : app.Step app' :=
  ⟨he ▸ .refl _, .inr ⟨by rw [he], hl, by rw [hh]; exact List.Subset.refl _⟩, by rw [ha]⟩

theorem refl (app : App) : app.Step app := .of_same rfl rfl rfl rfl

theorem ite {p : Prop} [Decidable p] (h : app.Step app₁) (h' : app.Step app') :
    app.Step (if p then app₁ else app') := by
  split
  · exact h
  · exact h'

theorem withInputs (app : App) (inputs : Inputs) : app.Step { app with inputs } :=
  .of_same rfl rfl rfl rfl

theorem withSession (app : App) (session : Session) : app.Step { app with session } :=
  .of_same rfl rfl rfl rfl

/-- An editor action that draws nothing. -/
theorem modifyEditor (app : App) (action : Editor.Action)
    (h : app.editor.diagram.unbent = (app.editor.perform action).diagram.unbent) :
    app.Step { app with editor := app.editor.perform action } :=
  ⟨.perform _ action, .inr ⟨h, rfl, List.Subset.refl _⟩, rfl⟩

theorem clear (app : App) (action : Editor.Action) :
    app.Step { app with editor := app.editor.perform action }.clearResult :=
  ⟨.perform _ action, .inl ⟨rfl, rfl⟩, rfl⟩

theorem say (app : App) (message : String) : app.Step (app.say message) :=
  .modifyEditor app (.say message) rfl

theorem modifyOptions (app : App) (f : WorkspaceOptions → WorkspaceOptions) :
    app.Step (app.modifyOptions f) :=
  .modifyEditor app (.setOptions (f app.editor.options)) rfl

section Requests

variable {α : Type} {wrap : Except StoreError α → Answer}
  (request : Store → Session → Except StoreError α × Store)

theorem ask (app : App) (hwrap : ∀ result, checks [wrap result] = []) :
    app.Step (app.ask wrap request) := by
  refine ⟨.refl _, .inr ⟨rfl, rfl, List.Subset.refl _⟩, ?_⟩
  show checks (app.answers ++ [wrap _]) = _
  rw [checks, List.filterMap_append]
  exact (congrArg _ (hwrap _)).trans (List.append_nil _)

theorem askIfOpen (app : App) (hwrap : ∀ result, checks [wrap result] = []) :
    app.Step (app.askIfOpen wrap request) :=
  .ite (.ask request app hwrap) (.refl app)

end Requests

theorem requestSave (app : App) : app.Step app.requestSave := .ask _ app fun _ => rfl

theorem requestLoad (app : App) : app.Step app.requestLoad := .ask _ app fun _ => rfl

theorem commitEdgeLabel (app : App) (finished : Bool) : app.Step (app.commitEdgeLabel finished) := by
  have htaken : app.Step
      (app.modifyOptions fun o =>
        { o with edgeLabel := app.inputs.edgeLabel }).requestEdgeLabelUpdate :=
    (modifyOptions app _).trans (.askIfOpen _ _ fun _ => rfl)
  exact .ite (.ite (.refl app) htaken) (.ite (.refl app) (.withInputs app _))

theorem edit (app : App) (text : String) (f : Field) : app.Step (app.edit text f) := by
  cases f with
  | edgeLabel => exact (withInputs app _).trans (.commitEdgeLabel _ false)
  | string | alphabet => exact .withInputs app _
  | workspace | email => exact .withSession app _

theorem leaveField (app : App) (f : Field) : app.Step (app.leaveField f) := by
  cases f with
  | edgeLabel => exact .commitEdgeLabel app true
  | string | alphabet | workspace | email => exact .refl app

/-- A click that is refused draws nothing; any other clears the result. -/
theorem clickWorld (app : App) (p : Point) : app.Step (app.clickWorld p) := by
  unfold App.clickWorld
  split
  · refine .modifyEditor app (.select p) ?_
    show _ = (app.editor.selectCurveAt p).2.diagram.unbent
    unfold Editor.selectCurveAt
    split <;> rfl
  · split
    · rename_i editor hclick
      have hperform : app.editor.perform (.click (p.snap Coordinate.gridStep)) = editor :=
        congrArg Prod.snd hclick
      exact hperform ▸ .clear app _
    · rename_i err editor hclick
      have hperform : app.editor.perform (.click (p.snap Coordinate.gridStep)) = editor :=
        congrArg Prod.snd hclick
      have hdiagram : app.editor.diagram.unbent =
          (app.editor.perform (.click (p.snap Coordinate.gridStep))).diagram.unbent := by
        rw [hperform, Editor.diagram_of_refused hclick]
      exact hperform ▸ .modifyEditor app _ hdiagram

theorem follow (app : App) (target : Coordinate) : app.Step (app.follow target) := by
  unfold App.follow
  split
  · exact .modifyEditor app (.preview target) rfl
  · exact .modifyEditor app (.drag target) (app.editor.unbent_drag target).1
  · exact .refl app

theorem canvasFrame (app : App) (size : CanvasSize) (input : PointerInput) :
    app.Step (app.canvasFrame size input) :=
  canvasFrame_rel refl trans (fun _ _ _ _ => .of_same rfl rfl rfl rfl) follow clickWorld app size input

theorem requestAlphabetUpdate (app : App) : app.Step app.requestAlphabetUpdate :=
  ((modifyOptions app _).trans (.withInputs _ _)).trans (.askIfOpen _ _ fun _ => rfl)

theorem requestTraversalUpdate (app : App) : app.Step app.requestTraversalUpdate := by
  have hswitched : app.Step
      (if app.editor.options.showTraversal then app else { app with highlighted := [] }) :=
    .ite (.refl app) ⟨.refl _, .inr ⟨rfl, rfl, List.nil_subset _⟩, rfl⟩
  exact hswitched.trans (.askIfOpen _ _ fun _ => rfl)

theorem press (app : App) {c : Control} (hc : c ≠ .test) : app.Step (app.press c) := by
  cases c with
  | mode m => exact .modifyEditor app (.setMode m) rfl
  | undo => exact .ite (.clear app .undo) (.refl app)
  | redo => exact .ite (.clear app .redo) (.refl app)
  | clear => exact .clear app .discardAll
  | showTree => exact .ite (.of_same rfl rfl rfl rfl) (.refl app)
  | hush => exact .modifyEditor app .hush rfl
  | kind k => exact .ite (.refl app) (.clear app (.setOptions { app.editor.options with kind := k }))
  | test => exact absurd rfl hc
  | applyAlphabet => exact .requestAlphabetUpdate app
  | strict => exact (modifyOptions app _).trans (.askIfOpen _ _ fun _ => rfl)
  | traversal => exact (modifyOptions app _).trans (.requestTraversalUpdate _)
  | saveWorkspace => exact .ite (.requestSave app) (.refl app)
  | loadWorkspace => exact .ite (.requestLoad app) (.refl app)
  | openWorkspace | saveFile | saveFileAs | openParseTree | grid | darkMode =>
    exact .of_same rfl rfl rfl rfl

theorem takeOver (app : App) {data : Snapshot} {editor : Editor}
    (h : app.editor.restore data = .ok editor) : app.Step (app.takeOver editor) := by
  have hperform : app.editor.perform (.restore data) = editor := by simp only [Editor.perform, h]
  have hleads : app.editor.Leads editor := ⟨[.restore data], hperform⟩
  exact ⟨hleads, .inl ⟨rfl, rfl⟩, rfl⟩

theorem applyFileResult (app : App) (result : FileResult) :
    app.Step (app.applyFileResult result) := by
  cases result with
  | saved path => exact .of_same rfl rfl rfl rfl
  | workspaceRead path content =>
    show app.Step (app.applyWorkspaceText path content)
    unfold applyWorkspaceText
    split
    · rename_i editor hrestore
      obtain ⟨data, _, hdata⟩ : ∃ data, Snapshot.ofText content = .ok data ∧
          app.editor.restore data = .ok editor := by
        cases hread : Snapshot.ofText content with
        | error e => simp [hread, Except.bind] at hrestore
        | ok data => exact ⟨data, rfl, by simpa [hread, Except.bind] using hrestore⟩
      exact (takeOver app hdata).trans (.of_same rfl rfl rfl rfl)
    · exact .say app _
  | parseTreeRead path content =>
    show app.Step (app.applyParseTreeText path content)
    unfold applyParseTreeText
    split
    · exact .of_same rfl rfl rfl rfl
    · exact .say app _
  | failed message => exact .say app message

/-- An answer to anything but a string check, or a failure. -/
theorem applyAnswer (app : App) {answer : Answer}
    (h : ∀ checked, answer ≠ .checked (.ok checked)) : app.Step (app.applyAnswer answer) := by
  have hfailed (e : StoreError) : app.Step (app.say e.message) := .say app _
  cases answer with
  | checked result =>
    cases result with
    | ok checked => exact absurd rfl (h checked)
    | error e => exact hfailed e
  | saved result =>
    cases result with
    | ok _ => exact .refl app
    | error e => exact hfailed e
  | loaded result =>
    cases result with
    | ok data =>
      show app.Step (app.applyLoaded data)
      unfold applyLoaded
      split
      · rename_i editor hrestore
        exact .takeOver app hrestore
      · exact .say app _
    | error e => exact hfailed e
  | alphabetUpdated result | edgeLabelUpdated result =>
    cases result with
    | ok _ => exact (modifyOptions app _).trans (.withInputs _ _)
    | error e => exact hfailed e
  | strictUpdated result =>
    cases result with
    | ok strict => exact .modifyOptions app fun o => { o with strict }
    | error e => exact hfailed e
  | traversalUpdated result =>
    cases result with
    | ok showTraversal => exact .modifyOptions app fun o => { o with showTraversal }
    | error e => exact hfailed e

theorem receiveNext (app : App) (h : ∀ result, app.answers.head? ≠ some (.checked result)) :
    app.Step app.receiveNext := by
  unfold App.receiveNext
  split
  · exact .refl app
  · rename_i answer later hanswers
    have hother (result : Except StoreError CheckedString) : answer ≠ .checked result := by
      rintro rfl
      exact h result (by rw [hanswers, List.head?_cons])
    have htaken : app.Step { app with answers := later, inFlight := app.inFlight - 1 } := by
      refine ⟨.refl _, .inr ⟨rfl, rfl, List.Subset.refl _⟩, ?_⟩
      rw [hanswers]
      cases answer with
      | checked result => exact absurd rfl (hother result)
      | saved | loaded | alphabetUpdated | strictUpdated | traversalUpdated | edgeLabelUpdated => rfl
    exact htaken.trans (.applyAnswer _ fun checked => hother (.ok checked))

theorem perform (app : App) {action : Action} (htest : action ≠ .press .test)
    (hreceive : action ≠ .receive) : app.Step (app.perform action) := by
  cases action with
  | press c => exact .press app fun hc => htest (congrArg Action.press hc)
  | edit text f => exact .edit app text f
  | leave f => exact .leaveField app f
  | click p => exact .clickWorld app p
  | frame size input => exact .canvasFrame app size input
  | undo => exact .clear app .undo
  | redo => exact .clear app .redo
  | save => exact .requestSave app
  | load => exact .requestLoad app
  | receive => exact absurd rfl hreceive
  | readFile result => exact .applyFileResult app result

end Step

/-- The message that comes with a result is all that the editor takes of it. -/
theorem leads_applyChecked (app : App) (checked : CheckedString) :
    app.editor.Leads (app.applyChecked checked).editor := by
  unfold applyChecked
  dsimp only
  split
  · exact .refl _
  · exact .perform _ (.say checked.dialogue)

theorem leads_receiveNext (app : App) : app.editor.Leads app.receiveNext.editor := by
  cases hanswers : app.answers with
  | nil =>
    rw [receiveNext, hanswers]
    exact .refl _
  | cons answer later =>
    cases answer with
    | checked result =>
      rw [receiveNext, hanswers]
      cases result with
      | error e => exact .perform _ (.say e.message)
      | ok checked =>
        let taken := { app with answers := later, inFlight := app.inFlight - 1 }
        exact taken.leads_applyChecked checked
    | saved | loaded | alphabetUpdated | strictUpdated | traversalUpdated | edgeLabelUpdated =>
      exact (Step.receiveNext app (by simp [hanswers])).editor

theorem leads_perform (app : App) (action : Action) :
    app.editor.Leads (app.perform action).editor := by
  by_cases htest : action = .press .test
  · subst htest
    exact .refl _
  · by_cases hreceive : action = .receive
    · subst hreceive
      exact app.leads_receiveNext
    · exact (Step.perform app htest hreceive).editor

/-- An application that has just been started: its editor is as at the first start, or comes from a
stored workspace; no result is shown, and no answer waits. -/
structure Fresh (app : App) : Prop where
  source : app.editor = .initial ∨ ∃ data, Editor.initial.restore data = .ok app.editor
  cleared : app.Cleared
  answers : app.answers = []

namespace Fresh

theorem editor {app : App} (h : app.Fresh) : Editor.initial.Leads app.editor := by
  rcases h.source with heditor | ⟨data, hrestore⟩
  · exact heditor ▸ .refl _
  · exact ⟨[.restore data], by simp only [List.foldl, Editor.perform, hrestore]⟩

theorem ofJson? {j : Json} {app : App} (h : ofJson? j = some app) : app.Fresh := by
  simp only [App.ofJson?, Option.bind_eq_bind, Option.bind_eq_some_iff, Option.pure_def,
    Option.some.injEq] at h
  obtain ⟨r, _, editor, heditor, view, _, session, _, darkMode, _, rfl⟩ := h
  refine ⟨?_, ⟨rfl, rfl⟩, rfl⟩
  unfold Json.Record.withDefault at heditor
  split at heditor
  · simp only [editorOfJson?, Option.bind_eq_bind, Option.bind_eq_some_iff] at heditor
    obtain ⟨data, _, hrestore⟩ := heditor
    cases hrestored : Editor.initial.restore data with
    | error e => simp [hrestored, Except.toOption] at hrestore
    | ok restored =>
      simp only [hrestored, Except.toOption, Option.some.injEq] at hrestore
      exact .inr ⟨data, hrestore ▸ hrestored⟩
  · exact .inl (Option.some.inj heditor).symm

theorem start (stored : Option String) (environment : Session) :
    (start stored environment).Fresh := by
  have hfresh : ((stored.bind ofText?).getD initial).Fresh := by
    cases hread : stored.bind ofText? with
    | none => exact ⟨.inl rfl, ⟨rfl, rfl⟩, rfl⟩
    | some app =>
      obtain ⟨text, _, htext⟩ := Option.bind_eq_some_iff.mp hread
      obtain ⟨j, _, hj⟩ := Option.bind_eq_some_iff.mp htext
      exact .ofJson? hj
  exact ⟨hfresh.source, hfresh.cleared, hfresh.answers⟩

theorem fits {app : App} (h : app.Fresh) : app.editor.Fits := h.editor.fits History.Fits.empty

end Fresh

theorem fits_after (stored : Option String) (environment : Session) (actions : List Action) :
    (after stored environment actions).editor.Fits := by
  have hrun {app : App} (h : app.editor.Fits) : (actions.foldl perform app).editor.Fits := by
    induction actions generalizing app with
    | nil => exact h
    | cons action later ih => exact ih ((app.leads_perform action).fits h)
  exact hrun (Fresh.start stored environment).fits

end App

end AutomatonSketch
