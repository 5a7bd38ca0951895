import AutomatonSketch.Proofs.Grid
import AutomatonSketch.Proofs.InProgress
import AutomatonSketch.Proofs.Openings
import AutomatonSketch.Proofs.Places

/-! States on the grid. A click goes to the nearest point of the grid, so it reaches the states
there and no others, and places none elsewhere; only at the lower end of the range does it leave the
grid. A workspace that is opened brings its states along wherever they are. -/

namespace AutomatonSketch

def Diagram.OnGrid (d : Diagram) : Prop := ∀ n ∈ d.nodes, n.position.OnGrid

def Answer.diagram? : Answer → Option Diagram
  | .loaded result => result.toOption.bind fun data => data.restore.toOption
  | _ => none

def FileResult.diagram? : FileResult → Option Diagram
  | .workspaceRead _ content => ((Snapshot.ofText content).bind Snapshot.restore).toOption
  | _ => none

namespace Editor

/-- The states that are drawn, and those that redoing can bring back, are on the grid. -/
def Grounded (e : Editor) : Prop := ∀ c ∈ e.places, c.OnGrid

variable {e e' : Editor}

theorem Grounded.of_same (h : e.Grounded) (hh : e'.history = e.history) : e'.Grounded := by
  intro c hc
  rw [places_eq_of_history hh] at hc
  exact h c hc

theorem Grounded.of_subset (h : e.Grounded) (hsub : e'.places ⊆ e.places) : e'.Grounded :=
  fun c hc => h c (hsub hc)

theorem Grounded.click (h : e.Grounded) {p : Point}
    (hp : e.diagram.Gains (e.click (p.snap Coordinate.gridStep)).2.diagram
      (p.snap Coordinate.gridStep) → ¬ p.round.Wraps) :
    (e.click (p.snap Coordinate.gridStep)).2.Grounded := by
  intro c hc
  rcases e.places_click _ c hc with hold | ⟨rfl, hgains⟩
  · exact h c hold
  · exact Point.onGrid_snap_iff.mpr (hp hgains)

theorem Fits.onGrid (hfits : e.Fits) (h : e.Grounded) : e.diagram.OnGrid :=
  fun _ hn => h _ (hfits.position_mem_places hn)

theorem grounded_of_restore {data : Snapshot} (h : e.restore data = .ok e')
    (hgrid : e'.diagram.OnGrid) : e'.Grounded := by
  intro c hc
  obtain ⟨n, hn, rfl⟩ := places_of_restore h c hc
  exact hgrid n hn

theorem diagram_of_restore {data : Snapshot} (h : e.restore data = .ok e') :
    data.restore.toOption = some e'.diagram := by
  unfold restore at h
  split at h
  · exact absurd h (by simp)
  · rename_i d hd
    obtain rfl := Except.ok.inj h
    rw [hd]
    rfl

end Editor

namespace App

/-- The diagram of the workspace that is opened, if one is. -/
def brought? (app : App) : Event → Option Diagram
  | .act .receive => app.answers.head?.bind Answer.diagram?
  | .act (.readFile result) => result.diagram?
  | _ => none

def brought (app : App) : List Event → List Diagram
  | [] => []
  | event :: later => (app.brought? event).toList ++ (app.undergo event).brought later

/-- The point of the plane that is clicked, if one is. -/
def clicked? (app : App) : Event → Option Point
  | .act (.click p) => some p
  | .act (.frame size input) => app.clickedIn size input
  | _ => none

/-- The point that is clicked if a state comes to stand where the click goes. -/
def placed? (app : App) (event : Event) : Option Point :=
  (app.clicked? event).filter fun p =>
    app.editor.diagram.Gains (app.undergo event).editor.diagram (p.snap Coordinate.gridStep)

def placed (app : App) : List Event → List Point
  | [] => []
  | event :: later => (app.placed? event).toList ++ (app.undergo event).placed later

theorem placed?_eq_some_iff {app : App} {event : Event} {p : Point} :
    app.placed? event = some p ↔ app.clicked? event = some p ∧
      app.editor.diagram.Gains (app.undergo event).editor.diagram
        (p.snap Coordinate.gridStep) := by
  simp [placed?, Option.filter_eq_some_iff]

def storedDiagram? (stored : Option String) : Option Diagram :=
  (stored.bind ofText?).map (·.editor.diagram)

section Kept

variable (app : App)

theorem history_commitEdgeLabel (finished : Bool) :
    (app.commitEdgeLabel finished).editor.history = app.editor.history := by
  unfold commitEdgeLabel
  dsimp only
  split
  · split
    · rfl
    · rw [requestEdgeLabelUpdate, editor_askIfOpen]
      rfl
  · split <;> rfl

theorem history_edit (text : String) (f : Field) :
    (app.edit text f).editor.history = app.editor.history := by
  cases f with
  | edgeLabel => exact history_commitEdgeLabel _ false
  | string | alphabet | workspace | email => rfl

theorem history_press (c : Control) (hundo : c ≠ .undo) (hredo : c ≠ .redo) (hclear : c ≠ .clear) :
    (app.press c).editor.history = app.editor.history := by
  have hite {p : Prop} [Decidable p] {app' : App}
      (h : app'.editor.history = app.editor.history) :
      (if p then app' else app).editor.history = app.editor.history := by
    split
    · exact h
    · rfl
  cases c with
  | undo => exact absurd rfl hundo
  | redo => exact absurd rfl hredo
  | clear => exact absurd rfl hclear
  | kind k =>
    show (if _ then app else _).editor.history = _
    split <;> rfl
  | showTree | saveWorkspace | loadWorkspace => exact hite rfl
  | applyAlphabet | strict =>
    exact (congrArg Editor.history (editor_askIfOpen _ _ _)).trans rfl
  | traversal =>
    refine (congrArg Editor.history (editor_askIfOpen _ _ _)).trans ?_
    split <;> rfl
  | mode | grid | darkMode | hush | test | openWorkspace | saveFile | saveFileAs
  | openParseTree => rfl

theorem history_applyChecked (checked : CheckedString) :
    (app.applyChecked checked).editor.history = app.editor.history := by
  unfold applyChecked
  dsimp only
  split <;> rfl

end Kept

/-- Letting what is being drawn follow the pointer moves no state. -/
structure Tracks (app app' : App) : Prop where
  view : app'.view = app.view
  history : app'.editor.history = app.editor.history
  index : app'.editor.diagram.index = app.editor.diagram.index

namespace Tracks

theorem trans {app app₁ app' : App} (h : app.Tracks app₁) (h' : app₁.Tracks app') :
    app.Tracks app' :=
  ⟨h'.view.trans h.view, h'.history.trans h.history, h'.index.trans h.index⟩

theorem follow (app : App) (target : Coordinate) : app.Tracks (app.follow target) := by
  unfold App.follow
  split
  · exact ⟨rfl, rfl, rfl⟩
  · obtain ⟨hdiagram, hhistory⟩ := app.editor.unbent_drag target
    exact ⟨rfl, hhistory, (congrArg Diagram.index hdiagram).symm⟩
  · exact ⟨rfl, rfl, rfl⟩

end Tracks

/-- All that a frame does to states is what its click does to them. -/
theorem exists_tracked (app : App) (size : CanvasSize) (input : PointerInput) :
    ∃ tracked : App, tracked.editor.history = app.editor.history ∧
      tracked.editor.diagram.index = app.editor.diagram.index ∧
      app.canvasFrame size input =
        match app.clickedIn size input with
        | some p => tracked.clickWorld p
        | none => tracked := by
  have heditor : (app.moved size input).editor = app.editor :=
    moved_rel (R := fun app app' => app'.editor = app.editor) (fun _ => rfl)
      (fun h h' => h'.trans h) (fun _ _ _ => rfl) app size input
  have hframe : app.canvasFrame size input =
      if (app.moved size input).shownTree?.isSome then app.moved size input
      else ((app.moved size input).trackPointer size input).clickCanvas input := rfl
  by_cases hshown : (app.moved size input).shownTree?.isSome
  · refine ⟨app.moved size input, congrArg Editor.history heditor,
      congrArg (·.diagram.index) heditor, ?_⟩
    rw [hframe, if_pos hshown]
    simp [clickedIn, hshown]
  · have htracks : (app.moved size input).Tracks ((app.moved size input).trackPointer size input) :=
      trackPointer_rel (R := Tracks) .trans (fun _ _ => ⟨rfl, rfl, rfl⟩) .follow _ size input
    refine ⟨(app.moved size input).trackPointer size input,
      htracks.history.trans (congrArg Editor.history heditor),
      htracks.index.trans (congrArg (·.diagram.index) heditor), ?_⟩
    rw [hframe, if_neg hshown, clickCanvas, htracks.view]
    cases hposition : input.position <;> cases hclicks : input.clicks <;>
      simp [clickedIn, hshown, hposition, hclicks]

section Grounded

variable {app : App} (h : app.editor.Grounded)

include h

theorem grounded_clickWorld {p : Point}
    (hp : app.editor.diagram.Gains (app.clickWorld p).editor.diagram (p.snap Coordinate.gridStep) →
      ¬ p.round.Wraps) : (app.clickWorld p).editor.Grounded := by
  unfold clickWorld at hp ⊢
  split
  · refine h.of_same ?_
    show (app.editor.selectCurveAt p).2.history = _
    unfold Editor.selectCurveAt
    split <;> rfl
  · rename_i hmode
    rw [if_neg hmode] at hp
    cases hclick : app.editor.click (p.snap Coordinate.gridStep) with
    | mk result editor =>
      have heditor : (app.editor.click (p.snap Coordinate.gridStep)).2 = editor := by rw [hclick]
      rw [hclick] at hp
      cases result <;> exact heditor ▸ h.click fun hgains => hp (heditor ▸ hgains)

theorem grounded_canvasFrame {size : CanvasSize} {input : PointerInput}
    (hplaced : ∀ p, app.placed? (.act (.frame size input)) = some p → ¬ p.round.Wraps) :
    (app.canvasFrame size input).editor.Grounded := by
  obtain ⟨tracked, hhistory, hindex, hframe⟩ := app.exists_tracked size input
  have htracked : tracked.editor.Grounded := h.of_same hhistory
  rw [hframe]
  cases hclicked : app.clickedIn size input with
  | none => exact htracked
  | some p =>
    rw [hclicked] at hframe
    refine grounded_clickWorld htracked fun hgains => ?_
    refine hplaced p (placed?_eq_some_iff.mpr ⟨hclicked, ?_⟩)
    show app.editor.diagram.Gains (app.canvasFrame size input).editor.diagram _
    rw [hframe]
    simpa only [Diagram.Gains, Diagram.nodeAt?, hindex] using hgains

theorem grounded_applyLoaded {data : Snapshot}
    (hgrid : ∀ d, data.restore.toOption = some d → d.OnGrid) :
    (app.applyLoaded data).editor.Grounded := by
  unfold applyLoaded
  split
  · rename_i editor hrestore
    exact Editor.grounded_of_restore hrestore (hgrid _ (Editor.diagram_of_restore hrestore))
  · exact h.of_same rfl

theorem grounded_applyAnswer {answer : Answer} (hgrid : ∀ d, answer.diagram? = some d → d.OnGrid) :
    (app.applyAnswer answer).editor.Grounded := by
  cases answer with
  | loaded result =>
    cases result with
    | ok data => exact grounded_applyLoaded h hgrid
    | error e => exact h.of_same rfl
  | checked result =>
    cases result with
    | ok checked => exact h.of_same (app.history_applyChecked checked)
    | error e => exact h.of_same rfl
  | saved result | alphabetUpdated result | strictUpdated result | traversalUpdated result
  | edgeLabelUpdated result => cases result <;> exact h.of_same rfl

theorem grounded_receiveNext
    (hgrid : ∀ d, app.answers.head?.bind Answer.diagram? = some d → d.OnGrid) :
    app.receiveNext.editor.Grounded := by
  unfold receiveNext
  split
  · exact h
  · rename_i answer later hanswers
    rw [hanswers] at hgrid
    have htaken : { app with answers := later, inFlight := app.inFlight - 1 }.editor.Grounded := h
    exact grounded_applyAnswer htaken hgrid

theorem grounded_applyFileResult {result : FileResult}
    (hgrid : ∀ d, result.diagram? = some d → d.OnGrid) :
    (app.applyFileResult result).editor.Grounded := by
  cases result with
  | saved path | failed message => exact h.of_same rfl
  | parseTreeRead path content =>
    show (app.applyParseTreeText path content).editor.Grounded
    unfold applyParseTreeText
    split <;> exact h.of_same rfl
  | workspaceRead path content =>
    show (app.applyWorkspaceText path content).editor.Grounded
    unfold applyWorkspaceText
    cases hread : Snapshot.ofText content with
    | error e => exact h.of_same rfl
    | ok data =>
      have hoffered : ∀ d, data.restore.toOption = some d → d.OnGrid := by
        simpa [FileResult.diagram?, hread, Except.bind] using hgrid
      simp only [Except.bind]
      split
      · rename_i editor hrestore
        exact Editor.grounded_of_restore hrestore (hoffered _ (Editor.diagram_of_restore hrestore))
      · exact h.of_same rfl

theorem grounded_press (hfits : app.editor.Fits) (c : Control) :
    (app.press c).editor.Grounded := by
  by_cases hundo : c = .undo
  · subst hundo
    show (if _ then app.undo.2 else app).editor.Grounded
    split
    · exact h.of_subset hfits.places_undo
    · exact h
  by_cases hredo : c = .redo
  · subst hredo
    show (if _ then app.redo.2 else app).editor.Grounded
    split
    · exact h.of_subset hfits.places_redo
    · exact h
  by_cases hclear : c = .clear
  · subst hclear
    exact h.of_subset app.editor.places_discardAll
  exact h.of_same (app.history_press c hundo hredo hclear)

theorem grounded_undergo (hfits : app.editor.Fits) (event : Event)
    (hgrid : ∀ d, app.brought? event = some d → d.OnGrid)
    (hplaced : ∀ p, app.placed? event = some p → ¬ p.round.Wraps) :
    (app.undergo event).editor.Grounded := by
  cases event with
  | store store => exact h
  | act action =>
    cases action with
    | press c => exact grounded_press h hfits c
    | edit text f => exact h.of_same (app.history_edit text f)
    | leave f =>
      cases f with
      | edgeLabel => exact h.of_same (app.history_commitEdgeLabel true)
      | string | alphabet | workspace | email => exact h
    | click p =>
      exact grounded_clickWorld h fun hgains => hplaced p (placed?_eq_some_iff.mpr ⟨rfl, hgains⟩)
    | frame size input => exact grounded_canvasFrame h hplaced
    | undo => exact h.of_subset hfits.places_undo
    | redo => exact h.of_subset hfits.places_redo
    | save | load => exact h.of_same rfl
    | receive => exact grounded_receiveNext h hgrid
    | readFile result => exact grounded_applyFileResult h hgrid

end Grounded

section Brought

variable {app : App} {d : Diagram}

theorem diagram_applyLoaded {data : Snapshot} (h : data.restore.toOption = some d) :
    (app.applyLoaded data).editor.diagram = d := by
  cases hdata : data.restore with
  | error e => simp [hdata, Except.toOption] at h
  | ok shown =>
    simp only [hdata, Except.toOption, Option.some.injEq] at h
    simp only [applyLoaded, Editor.restore, hdata]
    exact h

theorem diagram_applyWorkspaceText {path content : String}
    (h : ((Snapshot.ofText content).bind Snapshot.restore).toOption = some d) :
    (app.applyWorkspaceText path content).editor.diagram = d := by
  cases hread : Snapshot.ofText content with
  | error e => simp [hread, Except.bind, Except.toOption] at h
  | ok data =>
    cases hdata : data.restore with
    | error e => simp [hread, Except.bind, hdata, Except.toOption] at h
    | ok shown =>
      simp only [hread, Except.bind, hdata, Except.toOption, Option.some.injEq] at h
      simp only [applyWorkspaceText, hread, Except.bind, Editor.restore, hdata]
      exact h

theorem diagram_of_brought? {event : Event} (h : app.brought? event = some d) :
    (app.undergo event).editor.diagram = d := by
  unfold brought? at h
  split at h
  · obtain ⟨answer, hanswer, hdiagram⟩ := Option.bind_eq_some_iff.mp h
    obtain ⟨later, hanswers⟩ := List.head?_eq_some_iff.mp hanswer
    show app.receiveNext.editor.diagram = d
    rw [receiveNext, hanswers]
    unfold Answer.diagram? at hdiagram
    split at hdiagram
    · rename_i result
      cases result with
      | error e => simp [Except.toOption] at hdiagram
      | ok data => exact diagram_applyLoaded hdiagram
    · exact absurd hdiagram (by simp)
  · rename_i result
    unfold FileResult.diagram? at h
    split at h
    · exact diagram_applyWorkspaceText h
    · exact absurd h (by simp)
  · exact absurd h (by simp)

end Brought

theorem grounded_start {stored : Option String} {environment : Session}
    (h : (start stored environment).editor.diagram.OnGrid) :
    (start stored environment).editor.Grounded := by
  rcases (Fresh.start stored environment).source with hinitial | ⟨data, hrestore⟩
  · rw [hinitial]
    exact fun c hc => absurd hc List.not_mem_nil
  · exact Editor.grounded_of_restore hrestore h

theorem not_wraps_of_placed? {app : App} {event : Event} {p : Point}
    (hfits : (app.undergo event).editor.Fits) (h : (app.undergo event).editor.diagram.OnGrid)
    (hplaced : app.placed? event = some p) : ¬ p.round.Wraps := by
  obtain ⟨_, _, hsome⟩ := placed?_eq_some_iff.mp hplaced
  obtain ⟨n, hn⟩ := Option.isSome_iff_exists.mp hsome
  have hposition : n.position = p.snap Coordinate.gridStep :=
    hfits.consistent.position_of_nodeAt? hn
  rw [← Point.onGrid_snap_iff, ← hposition]
  rw [← hposition] at hn
  exact h n (hfits.consistent.mem_nodes.mpr hn)

/-- By induction on the run. The states of a workspace are those that are drawn right after it has
been opened, and one that is placed is drawn right after the click; so they are on the grid if all
that are drawn always are. -/
theorem onGrid_iff {app : App} (hfits : app.editor.Fits) (h : app.editor.Grounded)
    (events : List Event) :
    (∀ app' ∈ events.scanl undergo app, app'.editor.diagram.OnGrid) ↔
      (∀ d ∈ app.brought events, d.OnGrid) ∧ ∀ p ∈ app.placed events, ¬ p.round.Wraps := by
  induction events generalizing app with
  | nil => simp [brought, placed, hfits.onGrid h]
  | cons event later ih =>
    have hfits' := (app.leads_undergo event).fits hfits
    have hhead := (app.undergo event).mem_scanl_undergo later
    rw [List.scanl_cons, List.forall_mem_cons, brought, List.forall_mem_append, placed,
      List.forall_mem_append]
    constructor
    · rintro ⟨_, hlater⟩
      have hnow : ∀ d, app.brought? event = some d → d.OnGrid := fun d hd =>
        diagram_of_brought? hd ▸ hlater _ hhead
      have hnew : ∀ p, app.placed? event = some p → ¬ p.round.Wraps := fun p hp =>
        not_wraps_of_placed? hfits' (hlater _ hhead) hp
      obtain ⟨hbrought, hplaced⟩ := (ih hfits' (grounded_undergo h hfits event hnow hnew)).mp hlater
      exact ⟨⟨fun d hd => hnow d (Option.mem_toList.mp hd), hbrought⟩,
        fun p hp => hnew p (Option.mem_toList.mp hp), hplaced⟩
    · rintro ⟨⟨hnow, hbrought⟩, hnew, hplaced⟩
      have hgrounded := grounded_undergo h hfits event
        (fun d hd => hnow d (Option.mem_toList.mpr hd))
        fun p hp => hnew p (Option.mem_toList.mpr hp)
      exact ⟨hfits.onGrid h, (ih hfits' hgrounded).mpr ⟨hbrought, hplaced⟩⟩

theorem onGrid_start_iff (stored : Option String) (environment : Session) :
    (start stored environment).editor.diagram.OnGrid ↔
      ∀ d ∈ (storedDiagram? stored).toList, d.OnGrid := by
  rw [start, storedDiagram?]
  cases stored.bind ofText? with
  | none => exact iff_of_true (fun n hn => absurd hn List.not_mem_nil) (by simp)
  | some app => simp [syncInputs]

/-- A click that finds a state can mark it and draw transitions from it and to it. -/
structure Hits (app : App) (p : Point) (n : Node) : Prop where
  found : app.editor.diagram.nodeAt? (p.snap Coordinate.gridStep) = some n
  marks : n.isFinal = false →
    ((app.press (.mode .addingFinalNode)).clickWorld p).editor.diagram.node? n.key =
      some { n with isFinal := true }
  draws : ∀ q m, app.editor.diagram.nodeAt? (q.snap Coordinate.gridStep) = some m →
    (((app.press (.mode .placingEdgeStart)).clickWorld p).clickWorld q).editor.diagram.edges =
      app.editor.diagram.edges ++
        [⟨Diagram.routed (.degenerate n.position) m.position, app.editor.options.edgeLabel⟩]

theorem hits_of_nodeAt? {app : App} (hd : app.editor.diagram.Consistent) {p : Point} {n : Node}
    (h : app.editor.diagram.nodeAt? (p.snap Coordinate.gridStep) = some n) : app.Hits p n := by
  have hposition := hd.position_of_nodeAt? h
  constructor
  case found => exact h
  case marks =>
    intro hopen
    have hmark : app.editor.diagram.markFinal (p.snap Coordinate.gridStep) =
        .ok ({ n with isFinal := true },
          app.editor.diagram.modifyNode (p.snap Coordinate.gridStep).key
            fun n => { n with isFinal := true }) := by
      simp [Diagram.markFinal, h, hopen]
    simp only [press, setMode, modifyEditor, clickWorld, Editor.setMode, Editor.click,
      Editor.clickWith, Editor.applyClick, Editor.hush, Editor.markFinal, hmark, Editor.record,
      clearResult, reduceCtorEq, if_false]
    have hkey : n.key = (p.snap Coordinate.gridStep).key := congrArg Coordinate.key hposition
    have hn : app.editor.diagram.node? (p.snap Coordinate.gridStep).key = some n := h
    rw [Diagram.node?_modifyNode, hkey, if_pos rfl, hn, Option.map_some]
  case draws =>
    -- The first click leaves the transition pending at `n`, and the second one ends it at `m`.
    intro q m hm
    have hbegin : app.editor.diagram.beginEdge (p.snap Coordinate.gridStep)
        app.editor.options.edgeLabel = .ok (.begin n.position app.editor.options.edgeLabel) := by
      simp only [Diagram.beginEdge, h]
    have hsource : app.editor.diagram.nodeAt? (Curve.degenerate n.position).start = some n :=
      hposition ▸ h
    have hcomplete : app.editor.diagram.completeEdge
        (.begin n.position app.editor.options.edgeLabel) (q.snap Coordinate.gridStep) =
          let e : Edge := ⟨Diagram.routed (.degenerate n.position) m.position,
            app.editor.options.edgeLabel⟩
          .ok (e, app.editor.diagram.pushEdge e) := by
      simp only [Diagram.completeEdge, Edge.begin, hm, hsource]
    simp only [press, setMode, modifyEditor, clickWorld, Editor.setMode, Editor.click,
      Editor.clickWith, Editor.applyClick, Editor.hush, Editor.startEdge, hbegin, clearResult,
      reduceCtorEq, if_false, Editor.finishEdge, hcomplete, Editor.record, Diagram.pushEdge]

/-- The states are on the grid all along exactly if those of every workspace that is opened are, the
stored one included, and no state is placed by a click that leaves the range. A click at a state on
the grid hits it; no click at a state off the grid does, nor any other that stays in range. -/
theorem onGrid_along (stored : Option String) (environment : Session) (events : List Event) :
    let started := start stored environment
    let app := events.foldl undergo started
    let opened := (storedDiagram? stored).toList ++ started.brought events
    ((∀ app' ∈ events.scanl undergo started, app'.editor.diagram.OnGrid) ↔
        (∀ d ∈ opened, d.OnGrid) ∧ ∀ p ∈ started.placed events, ¬ p.round.Wraps) ∧
      ∀ n ∈ app.editor.diagram.nodes,
        (n.position.OnGrid → ∀ p : Point, p.round = n.position → app.Hits p n) ∧
        (¬ n.position.OnGrid → ∀ p : Point,
          app.editor.diagram.nodeAt? (p.snap Coordinate.gridStep) = some n →
            p.round ≠ n.position ∧ p.round.Wraps) := by
  intro started app opened
  have hfits := (Fresh.start stored environment).fits
  have hd : app.editor.diagram.Consistent := ((started.leads_run events).fits hfits).consistent
  have hopened : (∀ d ∈ opened, d.OnGrid) ↔
      started.editor.diagram.OnGrid ∧ ∀ d ∈ started.brought events, d.OnGrid := by
    rw [List.forall_mem_append, onGrid_start_iff]
  rw [hopened, and_assoc]
  refine ⟨⟨?_, ?_⟩, fun n hn => ⟨?_, ?_⟩⟩
  · intro h
    have hstart := h started (started.mem_scanl_undergo events)
    exact ⟨hstart, (onGrid_iff hfits (grounded_start hstart) events).mp h⟩
  · rintro ⟨hstart, hlater⟩
    exact (onGrid_iff hfits (grounded_start hstart) events).mpr hlater
  · intro hgrid p hp
    refine hits_of_nodeAt? hd ?_
    rw [Point.snap, hp, hgrid]
    exact hd.mem_nodes.mp hn
  · intro hoff p hfound
    have hposition : n.position = p.snap Coordinate.gridStep := hd.position_of_nodeAt? hfound
    constructor
    · intro hp
      rw [Point.snap, hp] at hposition
      exact hoff hposition.symm
    · by_contra hwraps
      exact hoff (hposition ▸ Point.onGrid_snap_iff.mpr hwraps)

/-- A workspace with a state between the points of the grid. -/
def bringingOffGrid : List Event :=
  [.act (.readFile (.workspaceRead "w.json"
    ("\x7b\"list_of_states\":[\x7b\"position\":\x7b\"x\":10,\"y\":10\x7d," ++
      "\"is_start\":false,\"is_final\":false\x7d]\x7d")))]

theorem not_onGrid_bringingOffGrid :
    ¬ (bringingOffGrid.foldl undergo (start none .anonymous)).editor.diagram.OnGrid := by
  intro h
  have hnodes : (bringingOffGrid.foldl undergo (start none .anonymous)).editor.diagram.nodes =
      [.place (.of 10 10) false] := by decide +kernel
  have hgrid := h (.place (.of 10 10) false) (hnodes ▸ List.mem_singleton_self _)
  exact absurd hgrid (by decide)

end App

end AutomatonSketch
