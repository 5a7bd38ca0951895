import AutomatonSketch.Proofs.LateAnswers
import AutomatonSketch.Proofs.Openings

/-! Highlights and the switch for them. Whatever turns the switch off drops the highlights, but for
the answer that repeats an earlier change of it: it may arrive when the switch is on again and
something is highlighted. -/

namespace AutomatonSketch.App

/-- Nothing is highlighted while highlights are switched off. -/
def Respects (app : App) : Prop :=
  app.editor.options.showTraversal = false → app.highlighted = []

/-- An answer that switches highlights off arrives while there are some. -/
def LateOff (app : App) (event : Event) : Prop :=
  event = .act .receive ∧ app.answers.head? = some (.traversalUpdated (.ok false)) ∧
    app.highlighted ≠ []

/-- Highlights are off while an answer that switches them off is under way. -/
def KeepsOff (app : App) : Prop :=
  Answer.traversalUpdated (.ok false) ∈ app.answers → app.editor.options.showTraversal = false

variable {app app' : App}

theorem Cleared.respects (h : app.Cleared) : app.Respects := fun _ => h.2

theorem Respects.of_step (h : app.Respects) (hstep : app.Step app')
    (hswitch : app'.editor.options.showTraversal = app.editor.options.showTraversal) :
    app'.Respects := by
  rcases hstep.result with hcleared | hkept
  · exact hcleared.respects
  · intro hoff
    have hnone : app.highlighted = [] := h (hswitch.symm.trans hoff)
    exact List.subset_nil.mp (hnone ▸ hkept.highlighted)

theorem respects_press_traversal (app : App) : (app.press .traversal).Respects := by
  intro hoff
  let switched := app.modifyOptions fun o => { o with showTraversal := !o.showTraversal }
  have hheld : (app.press .traversal).editor.options.showTraversal =
      switched.editor.options.showTraversal := (Setting.takes_showTraversal app).held
  have hswitched : switched.editor.options.showTraversal = false := hheld.symm.trans hoff
  show switched.requestTraversalUpdate.highlighted = []
  simp only [requestTraversalUpdate, hswitched, Bool.false_eq_true, if_false]
  unfold askIfOpen
  split <;> rfl

theorem respects_applyChecked (app : App) (checked : CheckedString) :
    (app.applyChecked checked).Respects := by
  unfold applyChecked
  split <;> exact fun hoff => if_neg (ne_true_of_eq_false hoff)

theorem respects_takeOver (app : App) (editor : Editor) : (app.takeOver editor).Respects :=
  fun _ => rfl

theorem respects_applyLoaded (h : app.Respects) (data : Snapshot) :
    (app.applyLoaded data).Respects := by
  unfold applyLoaded
  split
  · exact app.respects_takeOver _
  · exact h

theorem respects_applyFileResult (h : app.Respects) (result : FileResult) :
    (app.applyFileResult result).Respects := by
  cases result with
  | saved | failed => exact h
  | workspaceRead path content =>
    show (app.applyWorkspaceText path content).Respects
    unfold applyWorkspaceText
    split
    · exact app.respects_takeOver _
    · exact h
  | parseTreeRead path content =>
    show (app.applyParseTreeText path content).Respects
    unfold applyParseTreeText
    split <;> exact h

/-- Only the answer that repeats a change of the switch may leave highlights that are switched off. -/
theorem respects_applyAnswer_iff (h : app.Respects) (answer : Answer) :
    (app.applyAnswer answer).Respects ↔
      ¬ (answer = .traversalUpdated (.ok false) ∧ app.highlighted ≠ []) := by
  by_cases hother : ∀ on, answer ≠ .traversalUpdated (.ok on)
  · have hrespects : (app.applyAnswer answer).Respects := by
      cases answer with
      | checked result =>
        cases result with
        | ok checked => exact app.respects_applyChecked checked
        | error e => exact h
      | loaded result =>
        cases result with
        | ok data => exact respects_applyLoaded h data
        | error e => exact h
      | traversalUpdated result =>
        cases result with
        | ok on => exact absurd rfl (hother on)
        | error e => exact h
      | saved result | alphabetUpdated result | strictUpdated result | edgeLabelUpdated result =>
        cases result <;> exact h
    exact iff_of_true hrespects fun hlate => hother false hlate.1
  · obtain ⟨on, rfl⟩ : ∃ on, answer = .traversalUpdated (.ok on) := by
      simpa only [not_forall, not_not] using hother
    -- The answer sets the switch and leaves the highlights.
    have hset : (app.applyAnswer (.traversalUpdated (.ok on))).Respects ↔
        (on = false → app.highlighted = []) := Iff.rfl
    cases on <;> simp [hset]

section Switch

variable (app : App)

theorem showTraversal_commitEdgeLabel (inputs : Inputs) (finished : Bool) :
    ({ app with inputs }.commitEdgeLabel finished).editor.options.showTraversal =
      app.editor.options.showTraversal := by
  cases htyped : app.typedLabel? inputs.edgeLabel with
  | none => exact (Setting.spared_edgeLabel app .showTraversal inputs finished htyped).held
  | some label =>
    exact ((Setting.takes_edgeLabel app inputs finished htyped).others .showTraversal
      (by decide)).held

theorem showTraversal_press {c : Control} (h : c ≠ .traversal) :
    (app.press c).editor.options.showTraversal = app.editor.options.showTraversal := by
  cases c with
  | traversal => exact absurd rfl h
  | applyAlphabet =>
    exact ((Setting.takes_alphabet app).others .showTraversal (by decide)).held
  | strict => exact ((Setting.takes_strict app).others .showTraversal (by decide)).held
  | loadWorkspace =>
    show (if _ then _ else _ : App).editor.options.showTraversal = _
    split <;> rfl
  | mode | undo | redo | clear | showTree | hush | kind | test | saveWorkspace | openWorkspace
  | saveFile | saveFileAs | openParseTree | grid | darkMode =>
    exact (Setting.spared_press .showTraversal rfl rfl).held

/-- The switch is turned by hand, by an answer, or by opening a file. -/
theorem showTraversal_perform {action : Action} (hpress : action ≠ .press .traversal)
    (hreceive : action ≠ .receive) (hread : ∀ result, action ≠ .readFile result) :
    (app.perform action).editor.options.showTraversal = app.editor.options.showTraversal := by
  cases action with
  | press c => exact app.showTraversal_press fun hc => hpress (congrArg _ hc)
  | edit text f =>
    cases f with
    | edgeLabel => exact app.showTraversal_commitEdgeLabel _ false
    | string | alphabet | workspace | email => rfl
  | leave f =>
    cases f with
    | edgeLabel => exact app.showTraversal_commitEdgeLabel app.inputs true
    | string | alphabet | workspace | email => rfl
  | click p => exact (Setting.Spared.clickWorld (s := .showTraversal) app p).held
  | frame size input => exact (Setting.Spared.canvasFrame (s := .showTraversal) app size input).held
  | undo | redo | save | load => rfl
  | receive => exact absurd rfl hreceive
  | readFile result => exact absurd rfl (hread result)

end Switch

theorem respects_receiveNext_iff (h : app.Respects) :
    app.receiveNext.Respects ↔ ¬ app.LateOff (.act .receive) := by
  cases hanswers : app.answers with
  | nil => simpa [receiveNext, LateOff, hanswers] using h
  | cons answer later =>
    have hreceive : app.receiveNext =
        { app with answers := later, inFlight := app.inFlight - 1 }.applyAnswer answer := by
      simp only [receiveNext, hanswers, receive]
    have htaken : { app with answers := later, inFlight := app.inFlight - 1 }.Respects := h
    rw [hreceive, respects_applyAnswer_iff htaken]
    simp [LateOff, hanswers]

theorem respects_perform (h : app.Respects) {action : Action} (hreceive : action ≠ .receive) :
    (app.perform action).Respects := by
  by_cases htraversal : action = .press .traversal
  · subst htraversal
    exact app.respects_press_traversal
  · by_cases htest : action = .press .test
    · subst htest
      exact h
    · by_cases hread : ∃ result, action = .readFile result
      · obtain ⟨result, rfl⟩ := hread
        exact respects_applyFileResult h result
      · exact h.of_step (.perform app htest hreceive)
          (app.showTraversal_perform htraversal hreceive (not_exists.mp hread))

theorem respects_undergo_iff (h : app.Respects) (event : Event) :
    (app.undergo event).Respects ↔ ¬ app.LateOff event := by
  by_cases hreceive : event = .act .receive
  · subst hreceive
    exact respects_receiveNext_iff h
  · refine iff_of_true ?_ fun hlate => hreceive hlate.1
    cases event with
    | store store => exact h
    | act action => exact respects_perform h fun ha => hreceive (congrArg _ ha)

theorem respects_scanl_iff (h : app.Respects) (events : List Event) :
    (∀ app' ∈ events.scanl undergo app, app'.Respects) ↔
      ∀ before event later, events = before ++ event :: later →
        ¬ (before.foldl undergo app).LateOff event := by
  -- The rest of the run goes on from a state that respects the switch, or not at all.
  induction events generalizing app with
  | nil => simpa using h
  | cons event later ih =>
    rw [List.scanl_cons, List.forall_mem_cons]
    constructor
    · rintro ⟨_, hlater⟩ before event' later' hsplit
      have hnext := hlater _ (mem_scanl_undergo _ later)
      cases before with
      | nil =>
        obtain ⟨rfl, rfl⟩ := List.cons.inj hsplit
        exact (respects_undergo_iff h event).mp hnext
      | cons first before =>
        obtain ⟨rfl, hrest⟩ := List.cons.inj hsplit
        exact (ih hnext).mp hlater before event' later' hrest
    · intro hnever
      have hnext := (respects_undergo_iff h event).mpr (hnever [] event later rfl)
      refine ⟨h, (ih hnext).mpr ?_⟩
      intro before event' later' hsplit
      exact hnever (event :: before) event' later' (congrArg _ hsplit)

theorem Respects.not_lateOff (h : app.Respects) (hkeeps : app.KeepsOff) (event : Event) :
    ¬ app.LateOff event := by
  rintro ⟨_, hanswer, hhighlighted⟩
  exact hhighlighted (h (hkeeps (List.mem_of_head? hanswer)))

theorem respects_of_keepsOff (h : app.Respects) {events : List Event}
    (hkeeps : ∀ app' ∈ events.scanl undergo app, app'.KeepsOff) :
    ∀ app' ∈ events.scanl undergo app, app'.Respects := by
  induction events generalizing app with
  | nil => simpa using h
  | cons event later ih =>
    rw [List.scanl_cons, List.forall_mem_cons] at hkeeps ⊢
    have hnext := (respects_undergo_iff h event).mpr (h.not_lateOff hkeeps.1 event)
    exact ⟨h, ih hnext hkeeps.2⟩

/-- Highlights respect their switch all along exactly if no answer switches them off late, so they do
where they are not switched on again before it arrives. Pressing the switch, opening a workspace and
a checked string set things right in any state. -/
theorem respects_along (stored : Option String) (environment : Session) (events : List Event) :
    let started := start stored environment
    let app := events.foldl undergo started
    ((∀ app' ∈ events.scanl undergo started, app'.Respects) ↔
        ∀ before event later, events = before ++ event :: later →
          ¬ (before.foldl undergo started).LateOff event) ∧
      ((∀ app' ∈ events.scanl undergo started, app'.KeepsOff) →
        ∀ app' ∈ events.scanl undergo started, app'.Respects) ∧
      (app.press .traversal).Respects ∧ (∀ editor, (app.takeOver editor).Respects) ∧
      ∀ checked, (app.applyAnswer (.checked (.ok checked))).Respects := by
  intro started app
  have hstart : started.Respects := (Fresh.start stored environment).cleared.respects
  exact ⟨respects_scanl_iff hstart events, respects_of_keepsOff hstart,
    app.respects_press_traversal, app.respects_takeOver, app.respects_applyChecked⟩

/-- Highlights are switched off while a check is under way, and on again where nothing is saved. -/
def switchedBack : List Event :=
  let n := "\x7b\"position\":\x7b\"x\":0,\"y\":0\x7d,\"is_start\":true,\"is_final\":false\x7d"
  [.act (.readFile (.workspaceRead "w.json" ("\x7b\"list_of_states\":[" ++ n ++ "]\x7d"))),
    .act (.edit "w" .workspace), .act (.edit "m" .email), .act .save, .act .receive,
    .act (.press .test), .act (.press .traversal), .act (.edit "" .workspace),
    .act (.press .traversal), .act .receive, .act .receive]

theorem not_respects_switchedBack :
    ¬ (switchedBack.foldl undergo (start none .anonymous)).Respects := by
  intro h
  have hoff : (switchedBack.foldl undergo
      (start none .anonymous)).editor.options.showTraversal = false := by decide +kernel
  have hlength : (switchedBack.foldl undergo (start none .anonymous)).highlighted.length = 1 := by
    decide +kernel
  rw [h hoff] at hlength
  exact absurd hlength (by decide)

end AutomatonSketch.App
