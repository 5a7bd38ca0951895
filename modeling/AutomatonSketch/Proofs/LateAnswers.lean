import AutomatonSketch.Proofs.Settings

/-! Settings under late answers. A change takes effect at once, and once more when the answer of the
open workspace repeats it. So a setting comes to what the last answer under way carries; a change that
is not sent is undone by the answers that it finds under way. -/

namespace AutomatonSketch

namespace App

/-- Whether a saved workspace is asked for. -/
def Action.fetches : Action → Bool
  | .load | .press .loadWorkspace => true
  | _ => false

end App

namespace Setting

/-- What a setting is once the answers under way have arrived, if nothing else happens. -/
def settled (s : Setting) (app : App) : s.Value :=
  (s.underWay app).getLast?.getD (s.held app.editor.options)

/-- A change made here, by the user or by opening a file. -/
structure Change (s : Setting) where
  before : App
  value : s.Value
  /-- Whether the open workspace took it over, and answers so. -/
  sent : Bool

/-- The setting that the user changes, and what to. -/
def choice? (app : App) : App.Action → Option (Σ t : Setting, t.Value)
  | .press .applyAlphabet => some ⟨alphabet, Alphabet.sanitize (commaParts app.inputs.alphabet)⟩
  | .press .strict => some ⟨strict, !app.editor.options.strict⟩
  | .press .traversal => some ⟨showTraversal, !app.editor.options.showTraversal⟩
  | .edit text .edgeLabel => (app.typedLabel? text).map fun label => ⟨edgeLabel, label⟩
  | .leave .edgeLabel => (app.typedLabel? app.inputs.edgeLabel).map fun label => ⟨edgeLabel, label⟩
  | _ => none

def chosen? (s : Setting) (app : App) (action : App.Action) : Option s.Change :=
  (choice? app action).bind fun ⟨t, value⟩ =>
    if h : t = s then some ⟨app, h ▸ value, app.opensSaved⟩ else none

def change? (s : Setting) (app : App) : App.Action → Option s.Change
  | .readFile (.workspaceRead _ content) =>
    ((Snapshot.ofText content).toOption.bind s.offered?).map fun value => ⟨app, value, false⟩
  | action => s.chosen? app action

/-- The last change of a run. -/
def latest? (s : Setting) (app : App) : List App.Action → Option s.Change
  | [] => none
  | action :: later => (s.latest? (app.perform action) later).or (s.change? app action)

/-- What a change comes to: an answer that repeats it arrives last; without one the answers that it
found under way have the last word. -/
def Change.outcome {s : Setting} (c : s.Change) : s.Value :=
  if c.sent then c.value else (s.underWay c.before).getLast?.getD c.value

/-- An arriving answer has been counted already: its value is the setting now, and stays so unless a
later answer carries another one. -/
theorem settled_receiveNext (s : Setting) (app : App) :
    s.settled app.receiveNext = s.settled app := by
  unfold App.receiveNext
  split
  · rfl
  · rename_i answer later hanswers
    have hheld := s.held_receive app answer
    rw [App.receive_withAnswers, settled, settled, underWay, underWay, hanswers, List.filterMap_cons]
    show (later.filterMap s.carried?).getLast?.getD (s.held (app.receive answer).editor.options) = _
    rw [hheld]
    cases hcarried : s.carried? answer with
    | none => rfl
    | some value => rw [List.getLast?_cons]; rfl

theorem Spared.settled {s : Setting} {app app' : App} (h : s.Spared app app') :
    s.settled app' = s.settled app := by
  rw [Setting.settled, Setting.settled, h.held, h.underWay]

theorem settled_applyFileResult (s : Setting) (app : App) (result : FileResult) :
    s.settled (app.applyFileResult result) =
      ((s.change? app (.readFile result)).map Change.outcome).getD (s.settled app) := by
  cases result with
  | saved path | failed message => exact Spared.settled (.of_same rfl rfl)
  | parseTreeRead path content =>
    have hspared : s.Spared app (app.applyParseTreeText path content) := by
      unfold App.applyParseTreeText
      split <;> exact .of_same rfl rfl
    exact hspared.settled
  | workspaceRead path content =>
    have hanswers : (app.applyWorkspaceText path content).answers = app.answers := by
      unfold App.applyWorkspaceText
      split <;> rfl
    have hheld := s.held_applyWorkspaceText app path content
    show s.settled (app.applyWorkspaceText path content) = _
    rw [settled, underWay, hanswers, hheld, change?]
    cases (Snapshot.ofText content).toOption.bind s.offered? <;> rfl

theorem Takes.settled {t : Setting} {value : t.Value} {app app' : App}
    (h : t.Takes value app app') :
    t.settled app' = Change.outcome ⟨app, value, app.opensSaved⟩ := by
  rw [Setting.settled, h.held, h.underWay, Change.outcome]
  split
  · rw [List.getLast?_concat]
    rfl
  · rw [List.append_nil]

section Changes

variable {app : App} {action : App.Action}

theorem takes_of_choice? {t : Setting} {value : t.Value} (h : choice? app action = some ⟨t, value⟩) :
    t.Takes value app (app.perform action) := by
  unfold choice? at h
  split at h
  · cases h
    exact takes_alphabet app
  · cases h
    exact takes_strict app
  · cases h
    exact takes_showTraversal app
  · rename_i text
    obtain ⟨typed, htyped, hchoice⟩ := Option.map_eq_some_iff.mp h
    cases hchoice
    exact takes_edgeLabel app { app.inputs with edgeLabel := text } false htyped
  · obtain ⟨typed, htyped, hchoice⟩ := Option.map_eq_some_iff.mp h
    cases hchoice
    exact takes_edgeLabel app app.inputs true htyped
  · exact absurd h (by simp)

theorem spared_press (s : Setting) {c : Control} (hfetch : (App.Action.press c).fetches = false)
    (h : choice? app (.press c) = none) : s.Spared app (app.press c) := by
  cases c with
  | undo | redo | showTree => exact .ite (.of_same rfl rfl) (.refl app)
  | kind k =>
    refine .ite (.refl app) ⟨?_, rfl⟩
    cases s <;> rfl
  | test => exact .await app (by cases s <;> rfl)
  | saveWorkspace => exact .ite (.requestSave app) (.refl app)
  | applyAlphabet | strict | traversal => exact absurd h (by simp [choice?])
  | loadWorkspace => exact absurd hfetch (by simp [App.Action.fetches])
  | mode | clear | hush | openWorkspace | saveFile | saveFileAs | openParseTree | grid | darkMode =>
    exact .of_same rfl rfl

theorem settled_of_chosen? (s : Setting)
    (hspared : choice? app action = none → s.Spared app (app.perform action)) :
    s.settled (app.perform action) =
      ((s.chosen? app action).map Change.outcome).getD (s.settled app) := by
  unfold chosen?
  cases hchoice : choice? app action with
  | none => exact (hspared hchoice).settled
  | some choice =>
    obtain ⟨t, value⟩ := choice
    have htakes := takes_of_choice? hchoice
    by_cases h : t = s
    · subst h
      simp only [Option.bind_some, dif_pos]
      exact htakes.settled
    · simp only [Option.bind_some, dif_neg h]
      exact (htakes.others s (Ne.symm h)).settled

end Changes

/-- What a setting comes to is changed by changes made here only. -/
theorem settled_perform (s : Setting) (app : App) {action : App.Action}
    (hfetch : action.fetches = false) :
    s.settled (app.perform action) =
      ((s.change? app action).map Change.outcome).getD (s.settled app) := by
  cases action with
  | receive => exact s.settled_receiveNext app
  | readFile result => exact s.settled_applyFileResult app result
  | press c => exact settled_of_chosen? s (spared_press s hfetch)
  | edit text f =>
    refine settled_of_chosen? s fun hnone => ?_
    cases f with
    | edgeLabel =>
      exact spared_edgeLabel app s { app.inputs with edgeLabel := text } false
        (Option.map_eq_none_iff.mp hnone)
    | string | alphabet => exact .withInputs app _
    | workspace | email => exact .withSession app _
  | leave f =>
    refine settled_of_chosen? s fun hnone => ?_
    cases f with
    | edgeLabel => exact spared_edgeLabel app s app.inputs true (Option.map_eq_none_iff.mp hnone)
    | string | alphabet | workspace | email => exact .refl app
  | click p => exact settled_of_chosen? s fun _ => .clickWorld app p
  | frame size input => exact settled_of_chosen? s fun _ => .canvasFrame app size input
  | undo | redo => exact settled_of_chosen? s fun _ => .of_same rfl rfl
  | save => exact settled_of_chosen? s fun _ => .requestSave app
  | load => exact absurd hfetch (by simp [App.Action.fetches])

/-- By induction on the run, whose last change decides. -/
theorem settled_run (s : Setting) (app : App) {actions : List App.Action}
    (hfetch : ∀ action ∈ actions, action.fetches = false) :
    s.settled (actions.foldl App.perform app) =
      ((s.latest? app actions).map Change.outcome).getD (s.settled app) := by
  induction actions generalizing app with
  | nil => rfl
  | cons action later ih =>
    have hlater := ih (app.perform action) fun a ha => hfetch a (List.mem_cons_of_mem _ ha)
    rw [List.foldl_cons, hlater, latest?, s.settled_perform app (hfetch action List.mem_cons_self)]
    cases s.latest? (app.perform action) later <;> rfl

theorem Change.outcome_eq_value_iff {s : Setting} (c : s.Change) :
    c.outcome = c.value ↔ c.sent = true ∨
      ∀ late, (s.underWay c.before).getLast? = some late → late = c.value := by
  unfold outcome
  cases c.sent with
  | true => simp
  | false => cases (s.underWay c.before).getLast? <;> simp

end Setting

namespace App

/-- Once no answer is under way, a setting is what it was changed to last, unless the open workspace
did not take that change over and an earlier answer with another value was under way. -/
theorem held_of_latest (app : App) (actions : List Action) (s : Setting)
    (hfetch : ∀ action ∈ actions, action.fetches = false)
    (hquiet : (actions.foldl perform app).answers = []) :
    let held := s.held (actions.foldl perform app).editor.options
    (s.latest? app actions = none → held = s.settled app) ∧
      ∀ c, s.latest? app actions = some c →
        held = c.outcome ∧
          (held = c.value ↔ c.sent = true ∨
            ∀ late, (s.underWay c.before).getLast? = some late → late = c.value) := by
  intro held
  have hsettled : held = s.settled (actions.foldl perform app) := by
    rw [Setting.settled, Setting.underWay, hquiet]
    rfl
  have hrun := s.settled_run app hfetch
  constructor
  · intro hnone
    rw [hsettled, hrun, hnone]
    rfl
  · intro c hlatest
    have houtcome : held = c.outcome := by
      rw [hsettled, hrun, hlatest]
      rfl
    exact ⟨houtcome, by rw [houtcome, c.outcome_eq_value_iff]⟩

/-- Once no answer is under way, every setting is what it was changed to last. -/
def KeepsLatest (app : App) (actions : List Action) : Prop :=
  (actions.foldl perform app).answers = [] → ∀ s c, Setting.latest? s app actions = some c →
    s.held (actions.foldl perform app).editor.options = c.value

/-- An application whose workspace has been saved. -/
def signedIn : App := after none .anonymous [.edit "w" .workspace, .edit "m" .email, .save, .receive]

/-- A change that is sent, and another one once the session has been left. -/
def leaving : List Action :=
  [.edit "x" .alphabet, .press .applyAlphabet, .edit "" .workspace, .edit "y" .alphabet,
    .press .applyAlphabet, .receive]

theorem quiet_leaving : (leaving.foldl perform signedIn).answers = [] := by rfl

theorem latest?_leaving : ∃ c, Setting.alphabet.latest? signedIn leaving = some c ∧
    c.value = ["y"] ∧ c.sent = false ∧ Setting.alphabet.underWay c.before = [["x"]] :=
  ⟨_, by rfl, by rfl, by rfl, by rfl⟩

theorem held_of_latest_leaving :
    (∀ action ∈ leaving, action.fetches = false) ∧ (leaving.foldl perform signedIn).answers = [] ∧
      ∃ c, Setting.alphabet.latest? signedIn leaving = some c ∧ c.value = ["y"] ∧
        Setting.alphabet.held (leaving.foldl perform signedIn).editor.options = ["x"] := by
  have hfetch : ∀ action ∈ leaving, action.fetches = false := by decide
  obtain ⟨c, hlatest, hvalue, hsent, hlate⟩ := latest?_leaving
  have hheld := (held_of_latest signedIn leaving .alphabet hfetch quiet_leaving).2 c hlatest
  have houtcome : c.outcome = ["x"] := by
    rw [Setting.Change.outcome, hsent, hlate]
    rfl
  exact ⟨hfetch, quiet_leaving, c, hlatest, hvalue, hheld.1.trans houtcome⟩

theorem not_keepsLatest_leaving : ¬ KeepsLatest signedIn leaving := by
  intro h
  obtain ⟨c, hlatest, hvalue, -, -⟩ := latest?_leaving
  have hkept := h quiet_leaving .alphabet c hlatest
  have hheld : Setting.alphabet.held (leaving.foldl perform signedIn).editor.options = ["x"] := by
    rfl
  have hxy : ["x"] = ["y"] := (hheld.symm.trans hkept).trans hvalue
  exact absurd hxy (by decide)

end App

end AutomatonSketch
