import AutomatonSketch.Proofs.AppRuns
import AutomatonSketch.Proofs.FiniteNumbers
import AutomatonSketch.Proofs.Forms
import AutomatonSketch.Proofs.Rewind
import AutomatonSketch.Proofs.Snapshots
import Mathlib.Data.List.Perm.Subperm

/-! Closing the application and starting it again. The stored text always reads back, as no diagram
that can be drawn is refused and only a zoom that is not finite is unreadable. -/

namespace AutomatonSketch

open Json

namespace Coordinate

/-- The place of a coordinate among all of them, row by row. -/
def rank (c : Coordinate) : Nat :=
  (c.x.val + 2147483648).toNat * 4294967296 + (c.y.val + 2147483648).toNat

theorem rank_lt (c : Coordinate) : c.rank < 2 ^ 64 := by
  have hx := c.x.least_le
  have hx' := c.x.le_greatest
  have hy := c.y.least_le
  have hy' := c.y.le_greatest
  unfold rank
  omega

theorem rank_injective : Function.Injective rank := by
  intro c c' h
  have hx := c.x.least_le
  have hy := c.y.least_le
  have hy' := c.y.le_greatest
  have hx₁ := c'.x.least_le
  have hy₁ := c'.y.least_le
  have hy₁' := c'.y.le_greatest
  unfold rank at h
  have hfirst : c.x.val = c'.x.val := by omega
  have hsecond : c.y.val = c'.y.val := by omega
  cases c
  cases c'
  simp only [mk.injEq]
  exact ⟨AxisValue.ext_val hfirst, AxisValue.ext_val hsecond⟩

end Coordinate

namespace Diagram.Consistent

variable {d : Diagram}

/-- States are told apart by their positions, and there are no more positions than that. -/
theorem length_order_le (h : d.Consistent) : d.order.length ≤ 2 ^ 64 := by
  have hkeys : d.order = (d.nodes.map Node.position).map Coordinate.key := by
    rw [← h.keys_nodes, List.map_map]
    rfl
  have hnodup : (d.nodes.map Node.position).Nodup :=
    (List.nodup_map_iff Coordinate.key_injective).mp (hkeys ▸ h.order_nodup)
  have hranks := (List.nodup_map_iff Coordinate.rank_injective).mpr hnodup
  have hsubset : (d.nodes.map Node.position).map Coordinate.rank ⊆ List.range (2 ^ 64) := by
    intro r hr
    obtain ⟨c, _, rfl⟩ := List.mem_map.mp hr
    exact List.mem_range.mpr c.rank_lt
  have hlength := (hranks.subperm hsubset).length_le
  rw [List.length_range, List.length_map] at hlength
  rw [hkeys, List.length_map]
  exact hlength

theorem hasIndex_capture (h : d.Consistent) (options : WorkspaceOptions) :
    (Snapshot.capture d options).HasIndex := by
  intro i hi
  obtain ⟨key, _, hindex⟩ := Option.bind_eq_some_iff.mp hi
  obtain ⟨hlength, _⟩ := List.idxOf?_eq_some_iff.mp hindex
  exact Nat.lt_of_lt_of_le hlength h.length_order_le

end Diagram.Consistent

namespace Editor

/-- An editor as it is rebuilt from its snapshot. -/
def reopened (e : Editor) : Editor :=
  { withOptions e.options with diagram := e.diagram, history := .ofDiagram e.diagram }

namespace Fits

variable {e : Editor}

theorem restore_snapshot (h : e.Fits) (f : Editor) : f.restore e.snapshot = .ok e.reopened := by
  have hrestore : e.snapshot.restore = .ok e.diagram := h.consistent.restore_capture e.options
  simp only [Editor.restore, hrestore]
  rfl

theorem reopened (h : e.Fits) : e.reopened.Fits := Fits.restore (h.restore_snapshot e)

/-- Taking back everything and making it again. -/
theorem undone_all (h : e.Fits) : (e.undone e.history.applied.length).diagram = .empty ∧
    ((e.undone e.history.applied.length).redone e.history.applied.length).diagram = e.diagram := by
  have hlength : e.history.applied.length = e.history.undoStack.length := List.length_reverse
  rw [hlength]
  have hback := (h.redone_undone (Nat.le_refl _) (Nat.le_refl _)).1
  rw [Nat.sub_self] at hback
  refine ⟨?_, hback⟩
  rw [(h.undone _).diagram_eq_empty_iff, undoStack_undone, List.drop_length]

end Fits

end Editor

theorem View.ofJson?_toJson {v : View} (h : v.zoom.isFinite = true) : ∃ zoom,
    ofJson? v.toJson.asRead =
      some { initial with zoom, showGrid := v.showGrid, showParseTree := v.showParseTree } := by
  obtain ⟨n, hn, hfinite⟩ := Binary32.exists_toNumber h
  have hzoom : n.asRead.toFloat32? = some n.asRead.toFloat.toFloat32 := if_pos hfinite
  refine ⟨n.asRead.toFloat.toFloat32, ?_⟩
  rw [toJson, asRead_object, ofJson?, Record.of?_object]
  · simp [Record.withDefault, bool?, hn, ofOption, zoomOfJson?, hzoom]
  · rfl
  · decide

namespace App

/-- A stored state, with the entries of its tables in any order. -/
def form : Form App := fun app j =>
  ∃ editor, app.editor.snapshot.form editor ∧
    j = .object [("editor", editor), ("canvas", app.view.toJson), ("session", app.session.toJson),
      ("dark_mode", .bool app.darkMode)]

theorem form_toJson (app : App) : app.form app.toJson := ⟨_, app.editor.snapshot.form_toJson, rfl⟩

theorem ofText?_of_form {app : App} (hfits : app.editor.Fits)
    (hzoom : app.view.zoom.isFinite = true) {j : Json} (h : app.form j) : ∃ zoom,
    ofText? j.toText = some { initial with
      editor := app.editor.reopened
      view := { View.initial with
        zoom, showGrid := app.view.showGrid, showParseTree := app.view.showParseTree }
      session := app.session
      darkMode := app.darkMode } := by
  obtain ⟨editor, heditor, rfl⟩ := h
  obtain ⟨zoom, hview⟩ := View.ofJson?_toJson hzoom
  have hindex : app.editor.snapshot.HasIndex := hfits.consistent.hasIndex_capture _
  have hsnapshot : Snapshot.ofJson? 1 editor.asRead = some app.editor.snapshot :=
    (Snapshot.ofJson?_of_form heditor (by decide)).mpr hindex
  have hread : editorOfJson? editor.asRead = some app.editor.reopened := by
    simp [editorOfJson?, hsnapshot, hfits.restore_snapshot, Except.toOption]
  have hsession : Session.ofJson? app.session.toJson.asRead = some app.session :=
    Session.readBy rfl
  refine ⟨zoom, ?_⟩
  rw [ofText?, ofText?_toText, Option.bind_some, asRead_object, ofJson?, Record.of?_object]
  · simp [Record.withDefault, hread, hview, hsession, bool?]
  · rfl
  · decide

/-- The snapshot that a stored text holds, whether or not it can be restored. -/
def storedSnapshot? (text : String) : Option Snapshot := do
  let r ← Record.of? ["editor", "canvas", "session", "dark_mode"] (← Json.ofText? text)
  Snapshot.ofJson? 1 (← r.find "editor")

theorem ofText?_of_refused {text : String} {data : Snapshot} {e : WorkspaceError}
    (h : storedSnapshot? text = some data) (hrefused : data.restore = .error e) :
    ofText? text = none := by
  simp only [storedSnapshot?, Option.bind_eq_bind, Option.bind_eq_some_iff] at h
  obtain ⟨j, hj, r, hr, v, hv, hdata⟩ := h
  have heditor : editorOfJson? v = none := by
    simp [editorOfJson?, hdata, Editor.restore, hrefused, Except.toOption]
  rw [ofText?, hj, Option.bind_some, ofJson?, hr]
  simp [Record.withDefault, hv, heditor]

theorem start_of_unreadable {text : String} (h : ofText? text = none) (environment : Session) :
    start (some text) environment = { initial with session := environment } := by
  obtain ⟨workspace, email⟩ := environment
  rw [start, Option.bind_some, h]
  cases workspace <;> cases email <;> rfl

/-- What was drawn and set comes back when the application is closed and started again, provided
that the zoom is finite. The drawing can then be taken back and made again as a whole. A stored text
that cannot be read, or whose diagram is refused, counts as none. -/
theorem start_after_closing (stored : Option String) (environment environment' : Session)
    (actions : List Action)
    (hzoom : (after stored environment actions).view.zoom.isFinite = true) :
    let app := after stored environment actions
    app.form app.toJson ∧
      (∀ j, app.form j →
        let reopened := start (some j.toText) environment'
        let edits := reopened.editor.history.applied.length
        reopened.editor.diagram = app.editor.diagram ∧
          reopened.editor.options = app.editor.options ∧
          reopened.view.showGrid = app.view.showGrid ∧
          reopened.view.showParseTree = app.view.showParseTree ∧
          reopened.darkMode = app.darkMode ∧
          reopened.session.workspace = environment'.workspace.or app.session.workspace ∧
          reopened.session.email = environment'.email.or app.session.email ∧
          reopened.inputs.alphabet = String.intercalate ", " app.editor.options.alphabet ∧
          reopened.inputs.edgeLabel = app.editor.options.edgeLabel ∧
          reopened.Cleared ∧
          reopened.editor.history.canRedo = false ∧
          (reopened.editor.undone edits).diagram = .empty ∧
          ((reopened.editor.undone edits).redone edits).diagram = app.editor.diagram) ∧
      ∀ text, (ofText? text = none ∨
          ∃ data e, storedSnapshot? text = some data ∧ data.restore = .error e) →
        start (some text) environment' = { initial with session := environment' } := by
  intro app
  refine ⟨app.form_toJson, ?_, ?_⟩
  · intro j hj
    have hfits : app.editor.Fits := fits_after stored environment actions
    obtain ⟨zoom, hread⟩ := ofText?_of_form hfits hzoom hj
    obtain ⟨hempty, hback⟩ := hfits.reopened.undone_all
    simp only [start, Option.bind_some, hread]
    exact ⟨rfl, rfl, rfl, rfl, rfl, rfl, rfl, rfl, rfl, ⟨rfl, rfl⟩, rfl, hempty, hback⟩
  · rintro text (hunreadable | ⟨data, e, hdata, hrefused⟩)
    · exact start_of_unreadable hunreadable environment'
    · exact start_of_unreadable (ofText?_of_refused hdata hrefused) environment'

/-- A start state, and everything set that is stored. -/
def drawnAndSet : List Action :=
  [.press (.mode .addingStartNode), .click ⟨0, 0⟩, .press .grid, .press .darkMode,
    .edit "x, y" .alphabet, .press .applyAlphabet, .edit "y" .edgeLabel, .edit "w" .workspace]

theorem start_after_closing_drawnAndSet :
    let app := after none .anonymous drawnAndSet
    let reopened := start (some app.toJson.toText) ⟨none, some "m"⟩
    app.view.zoom.isFinite = true ∧ app.editor.diagram.nodeCount = 1 ∧
      reopened.editor.diagram = app.editor.diagram ∧
      reopened.editor.options.alphabet = ["x", "y"] ∧ reopened.inputs.alphabet = "x, y" ∧
      reopened.inputs.edgeLabel = "y" ∧
      reopened.view.showGrid = false ∧ reopened.darkMode = false ∧
      reopened.session.workspace = some "w" ∧ reopened.session.email = some "m" ∧
      (reopened.editor.undone reopened.editor.history.applied.length).diagram = .empty := by
  have hzoom : (after none .anonymous drawnAndSet).view.zoom.isFinite = true := by decide +kernel
  have hdrawn : (after none .anonymous drawnAndSet).editor.diagram.nodeCount = 1 := by
    decide +kernel
  have hoptions' : (after none .anonymous drawnAndSet).editor.options =
      ⟨.dfa, ["x", "y"], false, true, "y"⟩ := by decide +kernel
  have hset : (after none .anonymous drawnAndSet).view.showGrid = false ∧
      (after none .anonymous drawnAndSet).darkMode = false ∧
      (after none .anonymous drawnAndSet).session.workspace = some "w" := by decide +kernel
  obtain ⟨hform, hreopened, _⟩ :=
    start_after_closing none .anonymous ⟨none, some "m"⟩ drawnAndSet hzoom
  obtain ⟨hdiagram, hoptions, hgrid, _, hdark, hworkspace, hemail, hfield, hlabel, _, _, hempty,
    _⟩ := hreopened _ hform
  rw [hoptions'] at hoptions hfield hlabel
  have htext : String.intercalate ", " ["x", "y"] = "x, y" := by decide +kernel
  exact ⟨hzoom, hdrawn, hdiagram, congrArg (·.alphabet) hoptions, hfield.trans htext, hlabel,
    hgrid.trans hset.1, hdark.trans hset.2.1, hworkspace.trans hset.2.2, hemail, hempty⟩

end App

end AutomatonSketch
