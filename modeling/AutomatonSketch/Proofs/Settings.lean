import AutomatonSketch.Proofs.Alphabet
import AutomatonSketch.Proofs.AppRuns

/-! The settings, the answers that carry them, and the steps that change them. A step changes one
setting at most, and what it changes the open workspace is asked to take over; only opening a file or
a saved workspace changes them all. -/

namespace AutomatonSketch

namespace Editor

/-- No mode makes a click change the settings. -/
theorem options_applyClick {e e' : Editor} {c : Coordinate} {label : String}
    (h : e.applyClick c label = .ok e') : e'.options = e.options := by
  grind [applyClick, placeNode, markFinal, startEdge, finishEdge, record, Except.map]

theorem options_click (e : Editor) (c : Coordinate) : (e.click c).2.options = e.options := by
  unfold click clickWith
  split
  · rename_i e' happlied
    show e'.options = e.hush.options
    exact options_applyClick happlied
  · rfl

theorem options_drag (e : Editor) (c : Coordinate) :
    ((e.dragSelectedCurve? c).getD e).options = e.options := by
  obtain ⟨diagram, hdragged⟩ := e.exists_drag c
  rw [hdragged]

end Editor

/-- A saved workspace takes a setting over, and one that is not saved does not. -/
theorem Store.toOption_update (store : Store) (command : String) (session : Session) (value : α)
    (change : WorkspaceOptions → WorkspaceOptions) :
    (store.update command session value change).1.toOption =
      (session.credentials?.bind store.get?).map fun _ => value := by
  unfold Store.update Store.credentials
  cases session.credentials? with
  | none => rfl
  | some c =>
    dsimp only [Option.bind_some]
    cases store.get? c <;> rfl

inductive Setting where
  | alphabet
  | edgeLabel
  | strict
  | showTraversal
deriving DecidableEq

namespace Setting

def Value : Setting → Type
  | alphabet => List String
  | edgeLabel => String
  | strict | showTraversal => Bool

def held : (s : Setting) → WorkspaceOptions → s.Value
  | alphabet, o => o.alphabet
  | edgeLabel, o => o.edgeLabel
  | strict, o => o.strict
  | showTraversal, o => o.showTraversal

def put : (s : Setting) → s.Value → WorkspaceOptions → WorkspaceOptions
  | alphabet, value, o => { o with alphabet := value }
  | edgeLabel, value, o => { o with edgeLabel := value }
  | strict, value, o => { o with strict := value }
  | showTraversal, value, o => { o with showTraversal := value }

/-- What a workspace sets a setting to, if it can be restored. -/
def offered? (s : Setting) (data : Snapshot) : Option s.Value :=
  data.restore.toOption.map fun _ => s.held data.options

/-- The answer to a request to save a setting. -/
def answer : (s : Setting) → Except StoreError s.Value → Answer
  | alphabet, result => .alphabetUpdated result
  | edgeLabel, result => .edgeLabelUpdated result
  | strict, result => .strictUpdated result
  | showTraversal, result => .traversalUpdated result

/-- What the arrival of an answer sets a setting to. -/
def carried? : (s : Setting) → Answer → Option s.Value
  | s, .loaded result => result.toOption.bind s.offered?
  | alphabet, .alphabetUpdated result => result.toOption
  | edgeLabel, .edgeLabelUpdated result => result.toOption
  | strict, .strictUpdated result => result.toOption
  | showTraversal, .traversalUpdated result => result.toOption
  | _, _ => none

/-- What the answers under way set a setting to, one after the other. -/
def underWay (s : Setting) (app : App) : List s.Value := app.answers.filterMap s.carried?

end Setting

namespace App

/-- Whether the session names a workspace that has been saved. -/
def opensSaved (app : App) : Bool := (app.session.credentials?.bind app.store.get?).isSome

/-- The label that a typed text is taken for, if that is a new one. -/
def typedLabel? (app : App) (typed : String) : Option String :=
  if typed.length = 1 ∧ typed ≠ app.editor.options.edgeLabel then some typed else none

end App

namespace Setting

theorem held_put (s : Setting) (value : s.Value) (o : WorkspaceOptions) :
    s.held (s.put value o) = value := by
  cases s <;> rfl

theorem held_put_of_ne {s t : Setting} (h : s ≠ t) (value : t.Value) (o : WorkspaceOptions) :
    s.held (t.put value o) = s.held o := by
  cases s <;> cases t <;> first | rfl | exact absurd rfl h

theorem carried?_answer (s : Setting) (result : Except StoreError s.Value) :
    s.carried? (s.answer result) = result.toOption := by
  cases s <;> rfl

theorem carried?_answer_of_ne {s t : Setting} (h : s ≠ t) (result : Except StoreError t.Value) :
    s.carried? (t.answer result) = none := by
  cases s <;> cases t <;> first | rfl | exact absurd rfl h

section Waiting

variable (s : Setting) (app : App)

theorem underWay_await (answer : Answer) :
    s.underWay (app.await answer) = s.underWay app ++ (s.carried? answer).toList := by
  show (app.answers ++ [answer]).filterMap s.carried? = _
  rw [List.filterMap_append, List.filterMap_cons, List.filterMap_nil]
  cases s.carried? answer <;> rfl

theorem held_receive (answer : Answer) :
    s.held (app.receive answer).editor.options =
      (s.carried? answer).getD (s.held app.editor.options) := by
  cases answer with
  | checked result =>
    have hkept (checked : CheckedString) (app : App) :
        (app.applyChecked checked).editor.options = app.editor.options := by
      unfold App.applyChecked
      split <;> rfl
    cases result with
    | ok checked => cases s <;> exact congrArg _ (hkept checked _)
    | error e => cases s <;> rfl
  | loaded result =>
    cases result with
    | error e => cases s <;> rfl
    | ok data =>
      have hcarried : s.carried? (.loaded (.ok data)) = s.offered? data := by cases s <;> rfl
      rw [hcarried, offered?]
      show s.held (App.applyLoaded _ data).editor.options = _
      unfold App.applyLoaded Editor.restore
      cases hrestore : data.restore <;> rfl
  | saved result => cases result <;> cases s <;> rfl
  | alphabetUpdated result | strictUpdated result | traversalUpdated result
  | edgeLabelUpdated result => cases result <;> cases s <;> rfl

end Waiting

/-- A step that is none of a setting's business. -/
structure Spared (s : Setting) (app app' : App) : Prop where
  held : s.held app'.editor.options = s.held app.editor.options
  underWay : s.underWay app' = s.underWay app

namespace Spared

variable {s : Setting} {app app₁ app' : App}

theorem of_same (ho : app'.editor.options = app.editor.options) (ha : app'.answers = app.answers) :
    s.Spared app app' :=
  ⟨congrArg s.held ho, congrArg (List.filterMap s.carried?) ha⟩

theorem refl (app : App) : s.Spared app app := .of_same rfl rfl

theorem trans (h : s.Spared app app₁) (h' : s.Spared app₁ app') : s.Spared app app' :=
  ⟨h'.held.trans h.held, h'.underWay.trans h.underWay⟩

theorem ite {p : Prop} [Decidable p] (h : s.Spared app app₁) (h' : s.Spared app app') :
    s.Spared app (if p then app₁ else app') := by
  split
  · exact h
  · exact h'

theorem await (app : App) {answer : Answer} (h : s.carried? answer = none) :
    s.Spared app (app.await answer) := by
  refine ⟨rfl, ?_⟩
  rw [underWay_await, h]
  exact List.append_nil _

theorem withInputs (app : App) (inputs : Inputs) : s.Spared app { app with inputs } :=
  .of_same rfl rfl

theorem withSession (app : App) (session : Session) : s.Spared app { app with session } :=
  .of_same rfl rfl

theorem clickWorld (app : App) (p : Point) : s.Spared app (app.clickWorld p) := by
  unfold App.clickWorld
  split
  · refine .of_same ?_ rfl
    show (app.editor.selectCurveAt p).2.options = _
    unfold Editor.selectCurveAt
    split <;> rfl
  · have hoptions := app.editor.options_click (p.snap Coordinate.gridStep)
    split
    all_goals
      rename_i hclick
      rw [hclick] at hoptions
      exact .of_same hoptions rfl

theorem follow (app : App) (target : Coordinate) : s.Spared app (app.follow target) := by
  unfold App.follow
  split
  · exact .of_same rfl rfl
  · exact .of_same (app.editor.options_drag target) rfl
  · exact .refl app

theorem canvasFrame (app : App) (size : CanvasSize) (input : PointerInput) :
    s.Spared app (app.canvasFrame size input) :=
  App.canvasFrame_rel refl trans (fun _ _ _ _ => .of_same rfl rfl) follow clickWorld app size input

theorem requestSave (app : App) : s.Spared app app.requestSave := by
  have hstored (store : Store) : s.Spared app { app with store } := .of_same rfl rfl
  refine (hstored _).trans (.await _ ?_)
  cases s <;> rfl

end Spared

/-- Opening a file changes every setting or none, and asks for nothing. -/
theorem held_applyWorkspaceText (s : Setting) (app : App) (path content : String) :
    s.held (app.applyWorkspaceText path content).editor.options =
      ((Snapshot.ofText content).toOption.bind s.offered?).getD (s.held app.editor.options) := by
  unfold App.applyWorkspaceText Editor.restore offered?
  cases Snapshot.ofText content with
  | error e => rfl
  | ok data =>
    dsimp only [Except.bind, Except.toOption, Option.bind_some]
    cases data.restore <;> rfl

/-- A setting is changed here, and the open workspace is asked to take the change over. -/
structure Takes (t : Setting) (value : t.Value) (app app' : App) : Prop where
  held : t.held app'.editor.options = value
  underWay : t.underWay app' = t.underWay app ++ if app.opensSaved then [value] else []
  others : ∀ s, s ≠ t → s.Spared app app'

namespace Takes

variable {t : Setting} {value : t.Value} {app app' : App}

theorem of_asked {request : Store → Session → Except StoreError t.Value × Store}
    (hput : app'.editor.options = t.put value app.editor.options)
    (hanswers : app'.answers = app.answers) (hstore : app'.store = app.store)
    (hsession : app'.session = app.session)
    (hrequest : (request app.store app.session).1.toOption =
      (app.session.credentials?.bind app.store.get?).map fun _ => value) :
    t.Takes value app (app'.askIfOpen t.answer request) := by
  have hheld : t.held app'.editor.options = value := hput ▸ held_put t value _
  have hwaiting (s : Setting) (store : Store) :
      s.underWay { app' with store } = s.underWay app :=
    congrArg (List.filterMap s.carried?) hanswers
  have hspared (s : Setting) (hs : s ≠ t) (store : Store) : s.Spared app { app' with store } :=
    ⟨(congrArg s.held hput).trans (held_put_of_ne hs value _), hwaiting s store⟩
  unfold App.askIfOpen
  split
  · have hcarried : t.carried? (t.answer (request app'.store app'.session).1) =
        (app.session.credentials?.bind app.store.get?).map fun _ => value := by
      rw [carried?_answer, hstore, hsession, hrequest]
    refine ⟨hheld, ?_, fun s hs => (hspared s hs _).trans (.await _ (carried?_answer_of_ne hs _))⟩
    refine (t.underWay_await _ _).trans ?_
    rw [hcarried, hwaiting, App.opensSaved]
    cases app.session.credentials?.bind app.store.get? <;> rfl
  · rename_i hclosed
    have hnone : app.session.credentials? = none := by
      rwa [hsession, Option.not_isSome_iff_eq_none] at hclosed
    refine ⟨hheld, ?_, fun s hs => hspared s hs app'.store⟩
    refine (hwaiting t app'.store).trans ?_
    rw [App.opensSaved, hnone]
    exact (List.append_nil _).symm

end Takes

section Requests

variable (app : App)

theorem takes_alphabet :
    alphabet.Takes (Alphabet.sanitize (commaParts app.inputs.alphabet)) app
      (app.press .applyAlphabet) := by
  refine .of_asked rfl rfl rfl rfl ?_
  -- The workspace sanitizes what has been sanitized here.
  unfold Store.updateAlphabet
  rw [Alphabet.sanitize_sanitize]
  exact Store.toOption_update _ _ _ _ _

theorem takes_strict :
    strict.Takes (!app.editor.options.strict) app (app.press .strict) :=
  .of_asked rfl rfl rfl rfl (Store.toOption_update _ _ _ _ _)

theorem takes_showTraversal :
    showTraversal.Takes (!app.editor.options.showTraversal) app (app.press .traversal) := by
  unfold App.press App.requestTraversalUpdate
  dsimp only
  split <;> exact .of_asked rfl rfl rfl rfl (Store.toOption_update _ _ _ _ _)

theorem takes_edgeLabel {typed : String} (inputs : Inputs) (finished : Bool)
    (h : app.typedLabel? inputs.edgeLabel = some typed) :
    edgeLabel.Takes typed app ({ app with inputs }.commitEdgeLabel finished) := by
  unfold App.typedLabel? at h
  split at h
  · rename_i hnew
    obtain rfl := Option.some.inj h
    unfold App.commitEdgeLabel
    rw [if_pos hnew.1, if_neg hnew.2]
    refine .of_asked rfl rfl rfl rfl ?_
    -- The workspace takes one character only, and so does the field.
    have hstored : inputs.edgeLabel.length = 1 := hnew.1
    show (Store.updateEdgeLabel app.store app.session inputs.edgeLabel).1.toOption = _
    unfold Store.updateEdgeLabel
    rw [if_pos hstored]
    exact Store.toOption_update _ _ _ _ _
  · exact absurd h (by simp)

theorem spared_edgeLabel (s : Setting) (inputs : Inputs) (finished : Bool)
    (h : app.typedLabel? inputs.edgeLabel = none) :
    s.Spared app ({ app with inputs }.commitEdgeLabel finished) := by
  unfold App.typedLabel? at h
  split at h
  · exact absurd h (by simp)
  · rename_i hold
    unfold App.commitEdgeLabel
    dsimp only
    split
    · rename_i hone
      have hcurrent : inputs.edgeLabel = app.editor.options.edgeLabel :=
        not_not.mp fun hne => hold ⟨hone, hne⟩
      rw [if_pos hcurrent]
      exact .withInputs app inputs
    · exact .ite (.withInputs app inputs) (.withInputs app _)

end Requests

end Setting

end AutomatonSketch
