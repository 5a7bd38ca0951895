import AutomatonSketch.Proofs.AppRuns

/-! Workspaces opened along a run, from a file, from an answer or from the stored state. Each brings
its settings along as they are. -/

namespace AutomatonSketch

/-- The settings that come with a workspace, if it can be restored. -/
def Snapshot.settings? (data : Snapshot) : Option WorkspaceOptions :=
  data.restore.toOption.map fun _ => data.options

namespace Editor

theorem settings?_of_restore {e e' : Editor} {data : Snapshot} (h : e.restore data = .ok e') :
    data.settings? = some e'.options ∧ e'.pendingEdge = none := by
  unfold restore at h
  split at h
  · exact absurd h (by simp)
  · rename_i d hd
    obtain rfl := Except.ok.inj h
    exact ⟨by simp [Snapshot.settings?, hd, Except.toOption, withOptions], rfl⟩

theorem restore_of_settings? (e : Editor) {data : Snapshot} {o : WorkspaceOptions}
    (h : data.settings? = some o) : ∃ e', e.restore data = .ok e' ∧ e'.options = o := by
  unfold Snapshot.settings? at h
  cases hdata : data.restore with
  | error err => simp [hdata, Except.toOption] at h
  | ok d =>
    simp only [hdata, Except.toOption, Option.map_some, Option.some.injEq] at h
    refine ⟨{ withOptions data.options with diagram := d, history := .ofDiagram d }, ?_, h⟩
    simp only [restore, hdata]

end Editor

/-- The settings that come with a workspace that an answer carries. -/
def Answer.settings? : Answer → Option WorkspaceOptions
  | .loaded result => result.toOption.bind Snapshot.settings?
  | _ => none

/-- The settings that come with a workspace that has been read from a file. -/
def FileResult.settings? : FileResult → Option WorkspaceOptions
  | .workspaceRead _ content => (Snapshot.ofText content).toOption.bind Snapshot.settings?
  | _ => none

theorem Answer.of_settings? {answer : Answer} {o : WorkspaceOptions}
    (h : answer.settings? = some o) :
    ∃ data, answer = .loaded (.ok data) ∧ data.settings? = some o := by
  unfold Answer.settings? at h
  split at h
  · rename_i result
    cases result with
    | error e => exact absurd h (by simp [Except.toOption])
    | ok data => exact ⟨data, rfl, h⟩
  · exact absurd h (by simp)

theorem FileResult.of_settings? {result : FileResult} {o : WorkspaceOptions}
    (h : result.settings? = some o) : ∃ path content data, result = .workspaceRead path content ∧
      Snapshot.ofText content = .ok data ∧ data.settings? = some o := by
  unfold FileResult.settings? at h
  split at h
  · rename_i path content
    cases hread : Snapshot.ofText content with
    | error e => simp [hread, Except.toOption] at h
    | ok data =>
      rw [hread] at h
      exact ⟨path, content, data, rfl, hread, h⟩
  · exact absurd h (by simp)

namespace App

/-- What can happen to the application, and to the saved workspaces that it shares with others. -/
inductive Event where
  | act (action : Action)
  | store (store : Store)

def undergo (app : App) : Event → App
  | .act action => app.perform action
  | .store store => { app with store }

/-- The settings that come with the workspace that is opened, if one is. -/
def opened? (app : App) : Event → Option WorkspaceOptions
  | .act .receive => app.answers.head?.bind Answer.settings?
  | .act (.readFile result) => result.settings?
  | _ => none

/-- The settings that come with the workspaces opened in a run, one after the other. -/
def opened (app : App) : List Event → List WorkspaceOptions
  | [] => []
  | event :: later => (app.opened? event).toList ++ (app.undergo event).opened later

theorem mem_scanl_undergo (app : App) (events : List Event) : app ∈ events.scanl undergo app := by
  cases events <;> simp

section Opening

variable {app : App} {o : WorkspaceOptions}

/-- What an opened workspace leaves as it is taken over; only the path and the view may differ. -/
theorem exists_takeOver_of_opened? {event : Event} (h : app.opened? event = some o) :
    ∃ (before : App) (editor : Editor) (path : Option String) (view : View), editor.options = o ∧
      app.undergo event = { before.takeOver editor with path, view } := by
  unfold opened? at h
  split at h
  · obtain ⟨answer, hanswer, hsettings⟩ := Option.bind_eq_some_iff.mp h
    obtain ⟨data, rfl, hdata⟩ := Answer.of_settings? hsettings
    obtain ⟨later, hanswers⟩ := List.head?_eq_some_iff.mp hanswer
    obtain ⟨editor, hrestore, ho⟩ := app.editor.restore_of_settings? hdata
    let before := { app with answers := later, inFlight := app.inFlight - 1 }
    refine ⟨before, editor, app.path, app.view, ho, ?_⟩
    show app.receiveNext = before.takeOver editor
    rw [receiveNext, hanswers]
    show before.applyLoaded data = before.takeOver editor
    simp only [applyLoaded, before, hrestore]
  · obtain ⟨path, content, data, rfl, hread, hdata⟩ := FileResult.of_settings? h
    obtain ⟨editor, hrestore, ho⟩ := app.editor.restore_of_settings? hdata
    refine ⟨app, editor, some path, { app.view with showParseTree := false }, ho, ?_⟩
    show app.applyWorkspaceText path content = _
    simp only [applyWorkspaceText, hread, Except.bind, hrestore]
  · exact absurd h (by simp)

/-- The settings of an opened workspace are taken over as they are. -/
theorem options_of_opened? {event : Event} (h : app.opened? event = some o) :
    (app.undergo event).editor.options = o := by
  obtain ⟨before, editor, path, view, ho, hopened⟩ := exists_takeOver_of_opened? h
  rw [hopened]
  exact ho

end Opening

/-- The settings that a stored state brings along, if it can be read. -/
def storedSettings? (stored : Option String) : Option WorkspaceOptions :=
  (stored.bind ofText?).map (·.editor.options)

theorem leads_undergo (app : App) (event : Event) :
    app.editor.Leads (app.undergo event).editor := by
  cases event with
  | store store => exact .refl _
  | act action => exact app.leads_perform action

theorem leads_run (app : App) (events : List Event) :
    app.editor.Leads (events.foldl undergo app).editor := by
  induction events generalizing app with
  | nil => exact .refl _
  | cons event later ih => exact (app.leads_undergo event).trans (ih _)

end App

end AutomatonSketch
