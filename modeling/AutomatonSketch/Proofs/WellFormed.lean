import AutomatonSketch.Proofs.Acceptance
import AutomatonSketch.Proofs.Openings
import AutomatonSketch.Proofs.Settings

/-! Well-formed settings. What is typed is checked before it is taken, and so is what a workspace is
asked to take over; a workspace that is opened is not. So the settings stay well formed exactly if
those of every opened workspace are. -/

namespace AutomatonSketch

theorem exists_charLabel {s : String} (h : s.length = 1) : ∃ c, s = charLabel c := by
  rw [← String.length_toList, List.length_eq_one_iff] at h
  obtain ⟨c, hc⟩ := h
  exact ⟨c, by rw [← String.toList_inj, hc, charLabel, String.toList_singleton]⟩

/-- New transitions are labelled with one character, and the alphabet consists of characters. -/
structure WorkspaceOptions.WellFormed (o : WorkspaceOptions) : Prop where
  edgeLabel : ∃ c, o.edgeLabel = charLabel c
  alphabet : Alphabet.WellFormed o.alphabet

theorem WorkspaceOptions.wellFormed_initial : initial.WellFormed :=
  ⟨⟨'a', rfl⟩, Alphabet.wellFormed_iff.mpr (by decide)⟩

namespace Diagram

def labels (d : Diagram) : List String := d.edges.map Edge.label

theorem labels_of_unbent_eq {d d' : Diagram} (h : d.unbent = d'.unbent) : d'.labels = d.labels := by
  have hunbent (d : Diagram) : d.labels = d.unbent.labels := by
    rw [unbent, labels, labels, List.map_map]
    rfl
  rw [hunbent d, hunbent d', h]

theorem labels_of_addNode {d d' : Diagram} {c : Coordinate} {isStart : Bool} {placement : Placement}
    (h : d.addNode c isStart = .ok (placement, d')) : d'.labels = d.labels := by
  grind [addNode, insertNode, labels, takeStart_edges]

theorem labels_of_markFinal {d d' : Diagram} {c : Coordinate} {n : Node}
    (h : d.markFinal c = .ok (n, d')) : d'.labels = d.labels := by
  grind [markFinal, modifyNode, labels]

theorem labels_of_completeEdge {d d' : Diagram} {pending e : Edge} {c : Coordinate}
    (h : d.completeEdge pending c = .ok (e, d')) : d'.labels = d.labels ++ [pending.label] := by
  unfold completeEdge at h
  split at h
  · exact absurd h (by simp)
  · split at h
    · exact absurd h (by simp)
    · obtain ⟨rfl, rfl⟩ := Prod.mk.inj (Except.ok.inj h)
      exact List.map_append

/-- Reading a character goes on from the source of a transition, and can take the transition. -/
structure Follows (d : Diagram) (e : Edge) (c : Char) : Prop where
  deterministic : ∃ n next, d.node? e.sourceKey = some n ∧ d.index.next? n c = some next
  nondeterministic : ∃ n m, d.node? e.sourceKey = some n ∧ d.node? e.destinationKey = some m ∧
    m ∈ d.index.successors n (charLabel c)

theorem Consistent.follows {d : Diagram} (h : d.Consistent) {e : Edge} (he : e ∈ d.edges) {c : Char}
    (hlabel : e.label = charLabel c) : d.Follows e c := by
  obtain ⟨n, hn⟩ := mem_keys.mp (h.ends_mem e he).1
  obtain ⟨m, hm⟩ := h.exists_destination he
  have hfirst : (d.firstEdge? e.sourceKey c).isSome = true :=
    List.find?_isSome.mpr ⟨e, he, decide_eq_true ⟨rfl, hlabel⟩⟩
  obtain ⟨first, hfirst⟩ := Option.isSome_iff_exists.mp hfirst
  obtain ⟨next, hnext⟩ := h.exists_destination (List.mem_of_find?_eq_some hfirst)
  refine ⟨⟨n, next, hn, ?_⟩, ⟨n, m, hn, hm, (h.mem_successors hn).mpr ⟨e, he, rfl, hlabel, hm⟩⟩⟩
  rw [h.next?_eq hn, hfirst, Option.bind_some, hnext]

end Diagram

namespace Editor

section Clicks

variable {e e' : Editor} {c : Coordinate} {label : String}

theorem pendingEdge_applyClick (h : e.applyClick c label = .ok e') {p : Edge}
    (hp : e'.pendingEdge = some p) :
    p.label = label ∨ p.label = epsilon ∨ e.pendingEdge = some p := by
  grind [applyClick, placeNode, markFinal, startEdge, finishEdge, record, Except.map,
    Diagram.beginEdge, Edge.begin]

/-- A click draws no transition but the pending one. -/
theorem labels_applyClick (h : e.applyClick c label = .ok e') :
    e'.diagram.labels = e.diagram.labels ∨
      ∃ p, e.pendingEdge = some p ∧ e'.diagram.labels = e.diagram.labels ++ [p.label] := by
  grind [applyClick, placeNode, markFinal, startEdge, finishEdge, record, Except.map,
    → Diagram.labels_of_addNode, → Diagram.labels_of_markFinal, → Diagram.labels_of_completeEdge]

end Clicks

/-- The settings are well formed, and a transition that is being drawn is labelled with a
character. -/
structure Tidy (e : Editor) : Prop where
  options : e.options.WellFormed
  pending : ∀ p, e.pendingEdge = some p → ∃ c, p.label = charLabel c

namespace Tidy

variable {e e' : Editor}

theorem of_same (h : e.Tidy) (ho : e'.options = e.options) (hp : e'.pendingEdge = e.pendingEdge) :
    e'.Tidy :=
  ⟨ho ▸ h.options, hp ▸ h.pending⟩

theorem of_none (ho : e'.options.WellFormed) (hp : e'.pendingEdge = none) : e'.Tidy :=
  ⟨ho, fun p hpending => absurd (hp.symm.trans hpending) (by simp)⟩

theorem setMode (h : e.Tidy) (mode : EditorMode) : (e.setMode mode).Tidy := by
  refine ⟨h.options, ?_⟩
  intro p hp
  simp only [Editor.setMode] at hp
  split at hp
  · exact h.pending p hp
  · exact absurd hp (by simp)

theorem select (h : e.Tidy) (p : Point) : (e.selectCurveAt p).2.Tidy := by
  unfold selectCurveAt
  split
  · exact h
  · exact of_none h.options rfl

theorem preview (h : e.Tidy) (c : Coordinate) : (e.previewPendingEdge c).Tidy := by
  refine ⟨h.options, ?_⟩
  intro p hp
  obtain ⟨q, hq, rfl⟩ := Option.map_eq_some_iff.mp hp
  exact h.pending q hq

theorem drag (h : e.Tidy) (c : Coordinate) : ((e.dragSelectedCurve? c).getD e).Tidy := by
  obtain ⟨diagram, hdragged⟩ := e.exists_drag c
  rw [hdragged]
  exact h.of_same rfl rfl

/-- What a click draws has been pending, and is labelled with a character. -/
theorem click (h : e.Tidy) (c : Coordinate) : (e.click c).2.Tidy ∧
    ∃ cs : List Char, (e.click c).2.diagram.labels = e.diagram.labels ++ cs.map charLabel := by
  have hnothing {d : Diagram} (hd : d.labels = e.diagram.labels) :
      ∃ cs : List Char, d.labels = e.diagram.labels ++ cs.map charLabel :=
    ⟨[], hd.trans (List.append_nil _).symm⟩
  cases hclick : e.hush.applyClick c e.options.edgeLabel with
  | error err =>
    simp only [Editor.click, clickWith, hclick]
    exact ⟨h.of_same rfl rfl, hnothing rfl⟩
  | ok e' =>
    simp only [Editor.click, clickWith, hclick]
    constructor
    · refine ⟨options_applyClick hclick ▸ h.options, ?_⟩
      intro p hp
      rcases pendingEdge_applyClick hclick hp with hlabel | hlabel | hpending
      · exact hlabel ▸ h.options.edgeLabel
      · exact ⟨'ϵ', hlabel⟩
      · exact h.pending p hpending
    · rcases labels_applyClick hclick with hsame | ⟨p, hpending, hdrawn⟩
      · exact hnothing hsame
      · obtain ⟨ch, hch⟩ := h.pending p hpending
        rw [hch] at hdrawn
        exact ⟨[ch], hdrawn⟩

end Tidy

end Editor

/-- The setting that an answer carries, if any, is well formed. Of a workspace nothing is asked. -/
def Answer.Tidy : Answer → Prop
  | .alphabetUpdated (.ok alphabet) => Alphabet.WellFormed alphabet
  | .edgeLabelUpdated (.ok edgeLabel) => ∃ c, edgeLabel = charLabel c
  | _ => True

section Requests

variable (store : Store) (session : Session)

theorem Store.eq_of_update {command : String} {value answered : α}
    {change : WorkspaceOptions → WorkspaceOptions}
    (h : (store.update command session value change).1 = .ok answered) : answered = value := by
  have hvalue := store.toOption_update command session value change
  rw [h] at hvalue
  obtain ⟨_, _, heq⟩ := Option.map_eq_some_iff.mp hvalue.symm
  exact heq.symm

theorem Answer.tidy_updateAlphabet (entries : List String) :
    (Answer.alphabetUpdated (store.updateAlphabet session entries).1).Tidy := by
  cases hanswer : (store.updateAlphabet session entries).1 with
  | error e => trivial
  | ok alphabet => exact store.eq_of_update session hanswer ▸ Alphabet.wellFormed_sanitize entries

theorem Answer.tidy_updateEdgeLabel (edgeLabel : String) :
    (Answer.edgeLabelUpdated (store.updateEdgeLabel session edgeLabel).1).Tidy := by
  cases hanswer : (store.updateEdgeLabel session edgeLabel).1 with
  | error e => trivial
  | ok answered =>
    unfold Store.updateEdgeLabel at hanswer
    split at hanswer
    · rename_i hone
      exact store.eq_of_update session hanswer ▸ exists_charLabel hone
    · exact absurd hanswer (by simp)

end Requests

namespace App

/-- The settings are well formed, those that answers carry included, and a transition that is being
drawn is labelled with a character. -/
structure Tidy (app : App) : Prop where
  editor : app.editor.Tidy
  answers : ∀ answer ∈ app.answers, answer.Tidy

/-- A step that draws transitions labelled with characters only. -/
def Draws (app app' : App) : Prop :=
  app.Tidy → app'.Tidy ∧
    ∃ cs : List Char, app'.editor.diagram.labels = app.editor.diagram.labels ++ cs.map charLabel

namespace Draws

variable {app app₁ app' : App}

theorem of_same (ht : app.Tidy → app'.Tidy)
    (hd : app'.editor.diagram.labels = app.editor.diagram.labels) : app.Draws app' :=
  fun h => ⟨ht h, [], hd.trans (List.append_nil _).symm⟩

theorem trans (h : app.Draws app₁) (h' : app₁.Draws app') : app.Draws app' := by
  intro htidy
  obtain ⟨htidy₁, cs, hcs⟩ := h htidy
  obtain ⟨htidy', cs', hcs'⟩ := h' htidy₁
  refine ⟨htidy', cs ++ cs', ?_⟩
  rw [hcs', hcs, List.append_assoc, List.map_append]

theorem clickWorld (app : App) (p : Point) : app.Draws (app.clickWorld p) := by
  unfold App.clickWorld
  split
  · refine of_same (fun h => ⟨h.editor.select p, h.answers⟩) ?_
    show (app.editor.selectCurveAt p).2.diagram.labels = _
    unfold Editor.selectCurveAt
    split <;> rfl
  · intro h
    have hclick := h.editor.click (p.snap Coordinate.gridStep)
    split
    all_goals
      rename_i heq
      rw [heq] at hclick
      exact ⟨⟨hclick.1, h.answers⟩, hclick.2⟩

theorem follow (app : App) (target : Coordinate) : app.Draws (app.follow target) := by
  unfold App.follow
  split
  · exact of_same (fun h => ⟨h.editor.preview target, h.answers⟩) rfl
  · exact of_same (fun h => ⟨h.editor.drag target, h.answers⟩)
      (Diagram.labels_of_unbent_eq (app.editor.unbent_drag target).1)
  · exact of_same id rfl

theorem canvasFrame (app : App) (size : CanvasSize) (input : PointerInput) :
    app.Draws (app.canvasFrame size input) :=
  canvasFrame_rel (fun _ => of_same id rfl) trans
    (fun _ _ _ _ => of_same (fun h => ⟨h.editor, h.answers⟩) rfl) follow clickWorld app size input

end Draws

namespace Tidy

variable {app : App}

theorem ite {p : Prop} [Decidable p] {app app' : App} (h : app.Tidy) (h' : app'.Tidy) :
    (if p then app else app').Tidy := by
  split
  · exact h
  · exact h'

theorem modifyOptions (h : app.Tidy) {f : WorkspaceOptions → WorkspaceOptions}
    (hf : (f app.editor.options).WellFormed) : (app.modifyOptions f).Tidy :=
  ⟨⟨hf, h.editor.pending⟩, h.answers⟩

/-- Switches of other settings leave the label and the alphabet alone. -/
theorem switchOptions (h : app.Tidy) {f : WorkspaceOptions → WorkspaceOptions}
    (hlabel : (f app.editor.options).edgeLabel = app.editor.options.edgeLabel)
    (halphabet : (f app.editor.options).alphabet = app.editor.options.alphabet) :
    (app.modifyOptions f).Tidy :=
  h.modifyOptions ⟨hlabel ▸ h.editor.options.edgeLabel, halphabet ▸ h.editor.options.alphabet⟩

theorem withInputs (h : app.Tidy) (inputs : Inputs) : { app with inputs }.Tidy :=
  ⟨h.editor, h.answers⟩

theorem withSession (h : app.Tidy) (session : Session) : { app with session }.Tidy :=
  ⟨h.editor, h.answers⟩

theorem say (h : app.Tidy) (message : String) : (app.say message).Tidy :=
  ⟨h.editor.of_same rfl rfl, h.answers⟩

section Requests

variable {α : Type} {wrap : Except StoreError α → Answer}
  {request : Store → Session → Except StoreError α × Store}

theorem await (h : app.Tidy) {answer : Answer} (ha : answer.Tidy) : (app.await answer).Tidy := by
  refine ⟨h.editor, ?_⟩
  intro waiting hwaiting
  rcases List.mem_append.mp hwaiting with hwaiting | hwaiting
  · exact h.answers waiting hwaiting
  · exact List.mem_singleton.mp hwaiting ▸ ha

theorem ask (h : app.Tidy) (hrequest : ∀ store session, (wrap (request store session).1).Tidy) :
    (app.ask wrap request).Tidy := by
  have hstored (store : Store) : { app with store }.Tidy := ⟨h.editor, h.answers⟩
  exact (hstored _).await (hrequest _ _)

theorem askIfOpen (h : app.Tidy)
    (hrequest : ∀ store session, (wrap (request store session).1).Tidy) :
    (app.askIfOpen wrap request).Tidy :=
  ite (h.ask hrequest) h

end Requests

theorem requestSave (h : app.Tidy) : app.requestSave.Tidy := h.ask fun _ _ => trivial

theorem requestLoad (h : app.Tidy) : app.requestLoad.Tidy := h.ask fun _ _ => trivial

/-- A typed alphabet is sanitized here, and once more by the workspace that takes it over. -/
theorem requestAlphabetUpdate (h : app.Tidy) : app.requestAlphabetUpdate.Tidy := by
  have htaken := h.modifyOptions
    (f := fun o => { o with alphabet := Alphabet.sanitize (commaParts app.inputs.alphabet) })
    ⟨h.editor.options.edgeLabel, Alphabet.wellFormed_sanitize _⟩
  exact (htaken.withInputs _).askIfOpen fun store session =>
    Answer.tidy_updateAlphabet store session _

/-- A typed label is taken if it is one character. -/
theorem commitEdgeLabel (h : app.Tidy) (finished : Bool) : (app.commitEdgeLabel finished).Tidy := by
  unfold App.commitEdgeLabel
  dsimp only
  split
  · rename_i hone
    refine ite h ?_
    have htaken := h.modifyOptions (f := fun o => { o with edgeLabel := app.inputs.edgeLabel })
      ⟨exists_charLabel hone, h.editor.options.alphabet⟩
    exact htaken.askIfOpen fun store session => Answer.tidy_updateEdgeLabel store session _
  · exact ite h (h.withInputs _)

theorem edit (h : app.Tidy) (text : String) (f : Field) : (app.edit text f).Tidy := by
  cases f with
  | edgeLabel => exact (h.withInputs _).commitEdgeLabel false
  | string | alphabet => exact h.withInputs _
  | workspace | email => exact h.withSession _

theorem leaveField (h : app.Tidy) (f : Field) : (app.leaveField f).Tidy := by
  cases f with
  | edgeLabel => exact h.commitEdgeLabel true
  | string | alphabet | workspace | email => exact h

theorem switchTraversal (h : app.Tidy) : (app.press .traversal).Tidy := by
  have hswitched := h.switchOptions (f := fun o => { o with showTraversal := !o.showTraversal })
    rfl rfl
  unfold App.press App.requestTraversalUpdate
  dsimp only
  split
  · exact hswitched.askIfOpen fun _ _ => trivial
  · exact Tidy.askIfOpen ⟨hswitched.editor, hswitched.answers⟩ fun _ _ => trivial

theorem press (h : app.Tidy) (c : Control) : (app.press c).Tidy := by
  have hdropped {editor : Editor} (ho : editor.options = app.editor.options)
      (hp : editor.pendingEdge = none) : { app with editor }.clearResult.Tidy :=
    ⟨.of_none (ho ▸ h.editor.options) hp, h.answers⟩
  cases c with
  | mode m => exact ⟨h.editor.setMode m, h.answers⟩
  | undo | redo => exact ite (hdropped rfl rfl) h
  | clear => exact hdropped rfl rfl
  | showTree => exact ite ⟨h.editor, h.answers⟩ h
  | hush => exact ⟨h.editor.of_same rfl rfl, h.answers⟩
  | kind k =>
    have hkind := h.switchOptions (f := fun o => { o with kind := k }) rfl rfl
    exact ite h ⟨hkind.editor, hkind.answers⟩
  | test => exact h.await trivial
  | applyAlphabet => exact h.requestAlphabetUpdate
  | strict => exact (h.switchOptions rfl rfl).askIfOpen fun _ _ => trivial
  | traversal => exact h.switchTraversal
  | saveWorkspace => exact ite h.requestSave h
  | loadWorkspace => exact ite h.requestLoad h
  | openWorkspace | saveFile | saveFileAs | openParseTree | grid | darkMode =>
    exact ⟨h.editor, h.answers⟩

/-- A workspace that is opened brings its settings along. -/
theorem takeOver (h : app.Tidy) {data : Snapshot} {editor : Editor}
    (hrestore : app.editor.restore data = .ok editor)
    (hsettings : ∀ o, data.settings? = some o → o.WellFormed) : (app.takeOver editor).Tidy := by
  obtain ⟨hoffered, hpending⟩ := Editor.settings?_of_restore hrestore
  exact ⟨.of_none (hsettings _ hoffered) hpending, h.answers⟩

theorem applyChecked (h : app.Tidy) (checked : CheckedString) :
    (app.applyChecked checked).Tidy := by
  have hsaid : (if checked.dialogue = "" then app else app.say checked.dialogue).Tidy :=
    ite h (h.say _)
  exact ⟨hsaid.editor, hsaid.answers⟩

theorem applyLoaded (h : app.Tidy) {data : Snapshot}
    (hsettings : ∀ o, data.settings? = some o → o.WellFormed) : (app.applyLoaded data).Tidy := by
  unfold App.applyLoaded
  split
  · rename_i editor hrestore
    exact h.takeOver hrestore hsettings
  · exact h.say _

/-- A failure leaves a message only. -/
theorem applyAnswer (h : app.Tidy) {answer : Answer} (ha : answer.Tidy)
    (hsettings : ∀ o, answer.settings? = some o → o.WellFormed) :
    (app.applyAnswer answer).Tidy := by
  match answer with
  | .checked (.ok checked) => exact h.applyChecked checked
  | .saved (.ok _) => exact h
  | .loaded (.ok data) => exact h.applyLoaded hsettings
  | .alphabetUpdated (.ok alphabet) =>
    have htaken := h.modifyOptions (f := fun o => { o with alphabet })
      ⟨h.editor.options.edgeLabel, ha⟩
    exact htaken.withInputs _
  | .edgeLabelUpdated (.ok edgeLabel) =>
    have htaken := h.modifyOptions (f := fun o => { o with edgeLabel })
      ⟨ha, h.editor.options.alphabet⟩
    exact htaken.withInputs _
  | .strictUpdated (.ok strict) =>
    exact h.switchOptions (f := fun o => { o with strict }) rfl rfl
  | .traversalUpdated (.ok showTraversal) =>
    exact h.switchOptions (f := fun o => { o with showTraversal }) rfl rfl
  | .checked (.error e) | .saved (.error e) | .loaded (.error e) | .alphabetUpdated (.error e)
  | .edgeLabelUpdated (.error e) | .strictUpdated (.error e) | .traversalUpdated (.error e) =>
    exact h.say e.message

theorem receiveNext (h : app.Tidy)
    (hsettings : ∀ o, app.answers.head?.bind Answer.settings? = some o → o.WellFormed) :
    app.receiveNext.Tidy := by
  unfold App.receiveNext
  split
  · exact h
  · rename_i answer later hanswers
    rw [hanswers] at hsettings
    have hanswer : answer.Tidy := h.answers answer (hanswers ▸ List.mem_cons_self)
    have hlater : ∀ waiting ∈ later, waiting.Tidy := fun waiting hwaiting =>
      h.answers waiting (hanswers ▸ List.mem_cons_of_mem _ hwaiting)
    have htaken : { app with answers := later, inFlight := app.inFlight - 1 }.Tidy :=
      ⟨h.editor, hlater⟩
    exact htaken.applyAnswer hanswer hsettings

theorem applyFileResult (h : app.Tidy) {result : FileResult}
    (hsettings : ∀ o, result.settings? = some o → o.WellFormed) :
    (app.applyFileResult result).Tidy := by
  cases result with
  | saved path => exact ⟨h.editor, h.answers⟩
  | failed message => exact h.say message
  | parseTreeRead path content =>
    show (app.applyParseTreeText path content).Tidy
    unfold applyParseTreeText
    split
    · exact ⟨h.editor, h.answers⟩
    · exact h.say _
  | workspaceRead path content =>
    show (app.applyWorkspaceText path content).Tidy
    unfold applyWorkspaceText
    cases hread : Snapshot.ofText content with
    | error e => exact h.say _
    | ok data =>
      have hoffered : ∀ o, data.settings? = some o → o.WellFormed := by
        simpa [FileResult.settings?, hread, Except.toOption] using hsettings
      simp only [Except.bind]
      split
      · rename_i editor hrestore
        have htaken := h.takeOver hrestore hoffered
        exact ⟨htaken.editor, htaken.answers⟩
      · exact h.say _

/-- What happens keeps an application tidy, unless it opens a workspace that is not. -/
theorem undergo (h : app.Tidy) (event : Event)
    (hopened : ∀ o, app.opened? event = some o → o.WellFormed) : (app.undergo event).Tidy := by
  cases event with
  | store store => exact ⟨h.editor, h.answers⟩
  | act action =>
    cases action with
    | press c => exact h.press c
    | edit text f => exact h.edit text f
    | leave f => exact h.leaveField f
    | click p => exact (Draws.clickWorld app p h).1
    | frame size input => exact (Draws.canvasFrame app size input h).1
    | undo | redo => exact ⟨.of_none h.editor.options rfl, h.answers⟩
    | save => exact h.requestSave
    | load => exact h.requestLoad
    | receive => exact h.receiveNext hopened
    | readFile result => exact h.applyFileResult hopened

theorem run (h : app.Tidy) {events : List Event} (hopened : ∀ o ∈ app.opened events, o.WellFormed) :
    (events.foldl App.undergo app).Tidy := by
  induction events generalizing app with
  | nil => exact h
  | cons event later ih =>
    have hnow : ∀ o, app.opened? event = some o → o.WellFormed := fun o ho =>
      hopened o (List.mem_append_left _ (Option.mem_toList.mpr ho))
    exact ih (h.undergo event hnow) fun o ho => hopened o (List.mem_append_right _ ho)

/-- By induction on the run. The settings of a workspace are those of the application right after it
has been opened, so they are well formed if the latter always are. -/
theorem wellFormed_iff (h : app.Tidy) (events : List Event) :
    (∀ app' ∈ events.scanl App.undergo app, app'.editor.options.WellFormed) ↔
      ∀ o ∈ app.opened events, o.WellFormed := by
  induction events generalizing app with
  | nil => simp [opened, h.editor.options]
  | cons event later ih =>
    have hhead := (app.undergo event).mem_scanl_undergo later
    rw [List.scanl_cons, List.forall_mem_cons, opened, List.forall_mem_append]
    constructor
    · rintro ⟨_, hlater⟩
      have hnow : ∀ o, app.opened? event = some o → o.WellFormed := fun o ho =>
        options_of_opened? ho ▸ hlater _ hhead
      exact ⟨fun o ho => hnow o (Option.mem_toList.mp ho), (ih (h.undergo event hnow)).mp hlater⟩
    · rintro ⟨hnow, hlater⟩
      have htidy := h.undergo event fun o ho => hnow o (Option.mem_toList.mpr ho)
      exact ⟨h.editor.options, (ih htidy).mpr hlater⟩

end Tidy

theorem wellFormed_start_iff (stored : Option String) (environment : Session) :
    (start stored environment).editor.options.WellFormed ↔
      ∀ o ∈ (storedSettings? stored).toList, o.WellFormed := by
  rw [start, storedSettings?]
  cases stored.bind ofText? with
  | none => exact iff_of_true WorkspaceOptions.wellFormed_initial (by simp)
  | some app => simp [syncInputs]

theorem tidy_start {stored : Option String} {environment : Session}
    (h : (start stored environment).editor.options.WellFormed) :
    (start stored environment).Tidy := by
  have hfresh := Fresh.start stored environment
  have hpending : (start stored environment).editor.pendingEdge = none := by
    rcases hfresh.source with heditor | ⟨data, hrestore⟩
    · rw [heditor]
      rfl
    · exact (Editor.settings?_of_restore hrestore).2
  exact ⟨.of_none h hpending, by simp [hfresh.answers]⟩

/-- Whether an action can draw a transition. -/
def Action.draws : Action → Bool
  | .click _ | .frame _ _ => true
  | _ => false

theorem Draws.perform (app : App) {action : Action} (h : action.draws = true) :
    app.Draws (app.perform action) := by
  cases action with
  | click p => exact clickWorld app p
  | frame size input => exact canvasFrame app size input
  | press | edit | leave | undo | redo | save | load | receive | readFile =>
    exact absurd h (by simp [Action.draws])

/-- The settings are well formed all along exactly if those of every workspace that is opened are,
the stored one included. Then every transition drawn is labelled with a character; and whenever one
is, both simulations go on from its source when they read that character. -/
theorem wellFormed_along (stored : Option String) (environment : Session) (events : List Event) :
    let started := start stored environment
    let app := events.foldl undergo started
    let opened := (storedSettings? stored).toList ++ started.opened events
    ((∀ app' ∈ events.scanl undergo started, app'.editor.options.WellFormed) ↔
        ∀ o ∈ opened, o.WellFormed) ∧
      ((∀ o ∈ opened, o.WellFormed) → ∀ action : Action, action.draws = true →
        ∃ cs : List Char, (app.perform action).editor.diagram.labels =
          app.editor.diagram.labels ++ cs.map charLabel) ∧
      ∀ e ∈ app.editor.diagram.edges, ∀ c, e.label = charLabel c →
        app.editor.diagram.Follows e c := by
  intro started app opened
  have hopened : (∀ o ∈ opened, o.WellFormed) ↔
      started.editor.options.WellFormed ∧ ∀ o ∈ started.opened events, o.WellFormed := by
    rw [List.forall_mem_append, wellFormed_start_iff]
  have hfits : app.editor.Fits :=
    (started.leads_run events).fits (Fresh.start stored environment).fits
  rw [hopened]
  refine ⟨⟨?_, ?_⟩, ?_, ?_⟩
  · intro h
    have hstart := h started (started.mem_scanl_undergo events)
    exact ⟨hstart, ((tidy_start hstart).wellFormed_iff events).mp h⟩
  · rintro ⟨hstart, hlater⟩
    exact ((tidy_start hstart).wellFormed_iff events).mpr hlater
  · rintro ⟨hstart, hlater⟩ action haction
    exact (Draws.perform app haction ((tidy_start hstart).run hlater)).2
  · intro e he c hlabel
    exact hfits.consistent.follows he hlabel

/-- A workspace whose alphabet lists a letter twice. -/
def listingTwice : List Event :=
  [.act (.readFile (.workspaceRead "w.json" "\x7b\"alphabet\":[\"a\",\"a\",\"b\"]\x7d"))]

theorem not_wellFormed_listingTwice :
    ¬ (listingTwice.foldl undergo (start none .anonymous)).editor.options.WellFormed := by
  intro h
  have halphabet : (listingTwice.foldl undergo (start none .anonymous)).editor.options.alphabet =
      ["a", "a", "b"] := by decide +kernel
  have hnodup := h.alphabet.nodup
  rw [halphabet] at hnodup
  exact absurd hnodup (by decide)

end App

end AutomatonSketch
