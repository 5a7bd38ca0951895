import AutomatonSketch.Proofs.Acceptance
import AutomatonSketch.Proofs.AppRuns
import AutomatonSketch.Proofs.Rewind
import AutomatonSketch.Proofs.SearchOutcome

/-! What the result of a string check is about. The result shown answers the check that was under
way longest when it arrived, and the drawing is still as it was then; but nothing ties it to the
drawing that the check was requested for. -/

namespace AutomatonSketch

section Traversed

variable {states : StateIndex} {n m : Node} {cs : List Char}

theorem StateIndex.get?_of_mem_follow (hfiled : states.Filed) (hn : states.get? n.key = some n)
    (hm : m ∈ (states.follow n cs).traversed) : states.get? m.key = some m := by
  induction cs generalizing n with
  | nil =>
    obtain rfl : m = n := List.mem_singleton.mp hm
    exact hn
  | cons c cs ih =>
    unfold follow at hm
    split at hm
    · obtain rfl : m = n := List.mem_singleton.mp hm
      exact hn
    · rename_i next hnext
      obtain ⟨key, _, hkey⟩ := Option.bind_eq_some_iff.mp hnext
      rcases List.mem_cons.mp hm with rfl | hm
      · exact hn
      · exact ih ((hfiled key next hkey).symm ▸ hkey) hm

theorem StateIndex.Run.get?_of_mem (hfiled : states.Filed) {path : List Node}
    (h : states.Run n cs path) (hn : states.get? n.key = some n) (hm : m ∈ path) :
    states.get? m.key = some m := by
  induction h with
  | @stop n _ =>
    obtain rfl : m = n := List.mem_singleton.mp hm
    exact hn
  | @read _ next key _ _ _ _ hkey _ ih | @free _ next key _ _ _ hkey _ ih =>
    rcases List.mem_cons.mp hm with rfl | hm
    · exact hn
    · exact ih ((hfiled key next hkey).symm ▸ hkey) hm

/-- The states that an answer passes are states it was asked about. -/
theorem StringCheck.get?_of_mem_traversed {check : StringCheck} (hfiled : check.states.Filed)
    (hm : m ∈ check.run.traversed) : check.states.get? m.key = some m := by
  have hkey {key : StateKey} {n : Node} (hn : check.states.get? key = some n) :
      check.states.get? n.key = some n := (hfiled key n hn).symm ▸ hn
  unfold run at hm
  split at hm
  · simp at hm
  · split at hm
    · rename_i start input _ _
      split at hm
      · change m ∈ (check.states.runDeterministic start input).traversed at hm
        unfold StateIndex.runDeterministic at hm
        split at hm
        · simp [StringTest.nowhere] at hm
        · rename_i n hn
          exact StateIndex.get?_of_mem_follow hfiled (hkey hn) hm
      · change m ∈ (check.states.runNondeterministic start input).traversed at hm
        rcases check.states.runNondeterministic_cases start input with
          ⟨_, htest⟩ | ⟨n, hn, htest | ⟨path, hrun, htest⟩⟩
        · simp [htest, StringTest.nowhere] at hm
        · rw [htest] at hm
          obtain rfl : m = n := List.mem_singleton.mp hm
          exact hkey hn
        · rw [htest] at hm
          exact hrun.get?_of_mem hfiled (hkey hn) hm
    · simp [CheckedString.untested] at hm

end Traversed

namespace App

/-- The check that would be requested now. -/
def question (app : App) : StringCheck := app.editor.stringCheck (some app.inputs.string)

/-- Two moments with the same states, flags, start and transitions; bends may differ. -/
def SameDrawing (app app' : App) : Prop :=
  app.editor.diagram.unbent = app'.editor.diagram.unbent

theorem editor_applyChecked (app : App) (checked : CheckedString) :
    app.editor.Leads (app.applyChecked checked).editor ∧
      app.SameDrawing (app.applyChecked checked) := by
  refine ⟨app.leads_applyChecked checked, ?_⟩
  unfold applyChecked
  dsimp only
  split <;> rfl

theorem highlighted_applyChecked (app : App) (checked : CheckedString) :
    (app.applyChecked checked).highlighted ⊆ checked.traversed.map (·.key) := by
  have hhighlighted : (app.applyChecked checked).highlighted =
      if app.editor.options.showTraversal then checked.traversed.map (·.key) else [] := by
    unfold applyChecked
    dsimp only
    split <;> rfl
  rw [hhighlighted]
  split
  · exact List.Subset.refl _
  · exact List.nil_subset _

end App

/-- An application and what its string checks are about. -/
structure Watched where
  app : App
  /-- The moments at which the checks under way were requested, oldest first. -/
  asked : List App
  /-- The moments at which the check answered last was requested and its answer arrived. -/
  answered : Option (App × App)

namespace Watched

/-- Notes requests and arrivals of string checks along an action. -/
def perform (w : Watched) (action : App.Action) : Watched :=
  let app := w.app.perform action
  match action with
  | .press .test => { w with app, asked := w.asked ++ [w.app] }
  | .receive =>
    match w.app.answers.head? with
    | some (.checked (.ok _)) => ⟨app, w.asked.tail, w.asked.head?.map (·, w.app)⟩
    | some (.checked (.error _)) => { w with app, asked := w.asked.tail }
    | _ => { w with app }
  | _ => { w with app }

def after (stored : Option String) (environment : Session) (actions : List App.Action) : Watched :=
  actions.foldl perform ⟨.start stored environment, [], none⟩

/-- A result is shown only while the drawing is as it was when its check was requested, and then
the highlighted states are all there. -/
def UpToDate (w : Watched) : Prop :=
  ∀ checked, w.app.lastCheck = some checked →
    (∃ asked delivered, w.answered = some (asked, delivered) ∧ asked.SameDrawing w.app) ∧
      ∀ key ∈ w.app.highlighted, ∃ n, w.app.editor.diagram.node? key = some n

/-- The result shown answers the check answered last. Since it arrived the drawing has not changed,
and nothing is highlighted but what it passed. -/
def Shows (w : Watched) (checked : CheckedString) : Prop :=
  ∃ asked delivered, w.answered = some (asked, delivered) ∧ asked.editor.Fits ∧
    asked.question.run = checked ∧ delivered.SameDrawing w.app ∧
    w.app.highlighted ⊆ checked.traversed.map (·.key)

structure Sound (w : Watched) : Prop where
  fits : w.app.editor.Fits
  asked_fits : ∀ asked ∈ w.asked, asked.editor.Fits
  waiting : App.checks w.app.answers = w.asked.map fun asked => .ok asked.question.run
  hidden : w.app.lastCheck = none → w.app.highlighted = []
  shown : ∀ checked, w.app.lastCheck = some checked → w.Shows checked

namespace Sound

variable {w : Watched}

theorem of_step (h : w.Sound) {app : App} (hstep : w.app.Step app) :
    { w with app : Watched }.Sound where
  fits := hstep.editor.fits h.fits
  asked_fits := h.asked_fits
  waiting := hstep.waiting.trans h.waiting
  hidden hnone := by
    rcases hstep.result with ⟨_, hhighlighted⟩ | hkept
    · exact hhighlighted
    · have hbefore := h.hidden (hkept.lastCheck.symm.trans hnone)
      exact List.subset_nil.mp (hbefore ▸ hkept.highlighted)
  shown checked hchecked := by
    rcases hstep.result with ⟨hnone, _⟩ | hkept
    · exact absurd (hnone.symm.trans hchecked) (by simp)
    · obtain ⟨asked, delivered, hanswered, hfits, hrun, hsame, hpassed⟩ :=
        h.shown checked (hkept.lastCheck.symm.trans hchecked)
      exact ⟨asked, delivered, hanswered, hfits, hrun, hsame.trans hkept.drawing,
        List.Subset.trans hkept.highlighted hpassed⟩

theorem test (h : w.Sound) : (w.perform (.press .test)).Sound where
  fits := h.fits
  asked_fits asked hasked := by
    rcases List.mem_append.mp hasked with hasked | hasked
    · exact h.asked_fits asked hasked
    · rw [List.mem_singleton.mp hasked]
      exact h.fits
  waiting := by
    show App.checks (w.app.answers ++ [.checked (.ok w.app.question.run)]) =
      (w.asked ++ [w.app]).map fun asked => .ok asked.question.run
    rw [App.checks, List.filterMap_append, List.map_append]
    exact congrArg (· ++ _) h.waiting
  hidden := h.hidden
  shown := h.shown

/-- An answer that arrives belongs to the check under way longest. It is shown as it is. -/
theorem receive_checked (h : w.Sound) {result : Except StoreError CheckedString}
    {later : List Answer} (hanswers : w.app.answers = .checked result :: later) :
    (w.perform .receive).Sound := by
  -- Requests and answers wait in the same order, so the oldest request is the one answered.
  have hwaiting := h.waiting
  rw [hanswers] at hwaiting
  obtain ⟨asked, others, hasked, hresult, hlater⟩ := List.map_eq_cons_iff.mp hwaiting.symm
  subst hresult
  have hmem : asked ∈ w.asked := by rw [hasked]; exact List.mem_cons_self
  have hperform : w.perform .receive =
      ⟨{ w.app with answers := later }.receive (.checked (.ok asked.question.run)), others,
        some (asked, w.app)⟩ := by
    simp only [Watched.perform, App.perform, App.receiveNext, hanswers, hasked, List.head?_cons,
      List.tail_cons, Option.map_some]
  rw [hperform]
  obtain ⟨hleads, hsame⟩ := App.editor_applyChecked
    { w.app with answers := later, inFlight := w.app.inFlight - 1 } asked.question.run
  exact {
    fits := hleads.fits h.fits
    asked_fits := fun other hother =>
      h.asked_fits other (hasked ▸ List.mem_cons_of_mem asked hother)
    waiting := by
      rw [App.receive_withAnswers]
      exact hlater.symm
    hidden := fun hnone => absurd hnone (Option.some_ne_none _)
    shown := fun checked hchecked => by
      obtain rfl := Option.some.inj hchecked
      refine ⟨asked, w.app, rfl, h.asked_fits asked hmem, rfl, hsame, ?_⟩
      exact App.highlighted_applyChecked _ _ }

theorem receive (h : w.Sound) : (w.perform .receive).Sound := by
  have hother (hhead : ∀ result, w.app.answers.head? ≠ some (.checked result)) :
      (w.perform .receive).Sound := by
    have hperform : w.perform .receive = { w with app := w.app.receiveNext } := by
      unfold perform
      dsimp only
      split
      · exact absurd ‹_› (hhead _)
      · exact absurd ‹_› (hhead _)
      · rfl
    rw [hperform]
    exact h.of_step (.receiveNext w.app hhead)
  cases hanswers : w.app.answers with
  | nil => exact hother (by simp [hanswers])
  | cons answer later =>
    cases answer with
    | checked result => exact h.receive_checked hanswers
    | saved | loaded | alphabetUpdated | strictUpdated | traversalUpdated | edgeLabelUpdated =>
      exact hother (by simp [hanswers])

theorem perform (h : w.Sound) (action : App.Action) : (w.perform action).Sound := by
  by_cases htest : action = .press .test
  · rw [htest]
    exact h.test
  · by_cases hreceive : action = .receive
    · rw [hreceive]
      exact h.receive
    · have hperform : w.perform action = { w with app := w.app.perform action } := by
        unfold Watched.perform
        split
        · exact absurd rfl htest
        · exact absurd rfl hreceive
        · rfl
      rw [hperform]
      exact h.of_step (.perform w.app htest hreceive)

theorem after (stored : Option String) (environment : Session) (actions : List App.Action) :
    (Watched.after stored environment actions).Sound := by
  have hrun {w : Watched} (h : w.Sound) : (actions.foldl Watched.perform w).Sound := by
    induction actions generalizing w with
    | nil => exact h
    | cons action actions ih => exact ih (h.perform action)
  have hstart := App.Fresh.start stored environment
  refine hrun ⟨hstart.fits, by simp, ?_, fun _ => hstart.cleared.2, ?_⟩
  · rw [hstart.answers]
    rfl
  · intro checked hchecked
    exact absurd (hstart.cleared.1.symm.trans hchecked) (by simp)

theorem upToDate_iff (h : w.Sound) {checked : CheckedString}
    (hchecked : w.app.lastCheck = some checked) {asked delivered : App}
    (hanswered : w.answered = some (asked, delivered)) :
    w.UpToDate ↔ asked.SameDrawing delivered := by
  obtain ⟨asked', delivered', hanswered', hfits, rfl, hsame, hpassed⟩ := h.shown checked hchecked
  obtain ⟨rfl, rfl⟩ := Prod.mk.inj (Option.some.inj (hanswered'.symm.trans hanswered))
  constructor
  · intro hupToDate
    obtain ⟨⟨asked, delivered, hagain, hdrawing⟩, _⟩ := hupToDate _ hchecked
    obtain ⟨rfl, rfl⟩ := Prod.mk.inj (Option.some.inj (hagain.symm.trans hanswered'))
    exact hdrawing.trans hsame.symm
  · intro hunchanged _ _
    have hdrawing : asked'.SameDrawing w.app := hunchanged.trans hsame
    refine ⟨⟨asked', delivered', hanswered', hdrawing⟩, ?_⟩
    intro key hkey
    obtain ⟨n, hn, rfl⟩ := List.mem_map.mp (hpassed hkey)
    obtain ⟨_, hdiagram, _⟩ := Diagram.unbent_eq_iff.mp hdrawing
    rw [hdiagram]
    exact ⟨n, StringCheck.get?_of_mem_traversed hfits.consistent.filed hn⟩

end Sound

theorem app_perform (w : Watched) (action : App.Action) :
    (w.perform action).app = w.app.perform action := by
  unfold perform
  split
  · rfl
  · dsimp only
    split <;> rfl
  · rfl

theorem app_after (stored : Option String) (environment : Session) (actions : List App.Action) :
    (after stored environment actions).app = App.after stored environment actions := by
  have hrun (w : Watched) :
      (actions.foldl perform w).app = actions.foldl App.perform w.app := by
    induction actions generalizing w with
    | nil => rfl
    | cons action actions ih => rw [List.foldl_cons, List.foldl_cons, ih, app_perform]
  exact hrun _

/-- A result that is shown answers its check, and the drawing is as it was when the answer arrived.
The highlighted states are states of the drawing the check was requested for. It is up to date
exactly if nothing was drawn between the two. -/
theorem shown_after (stored : Option String) (environment : Session) (actions : List App.Action) :
    let w := after stored environment actions
    w.app = App.after stored environment actions ∧
      (w.app.lastCheck = none → w.app.highlighted = []) ∧
      ∀ checked, w.app.lastCheck = some checked → ∃ asked delivered,
        w.answered = some (asked, delivered) ∧ asked.question.run = checked ∧
        delivered.SameDrawing w.app ∧
        (∀ key ∈ w.app.highlighted, ∃ n ∈ checked.traversed, n.key = key ∧
          asked.editor.diagram.node? key = some n) ∧
        (w.UpToDate ↔ asked.SameDrawing delivered) := by
  intro w
  have h : w.Sound := .after stored environment actions
  refine ⟨app_after stored environment actions, h.hidden, ?_⟩
  intro checked hchecked
  obtain ⟨asked, delivered, hanswered, hfits, rfl, hsame, hpassed⟩ := h.shown checked hchecked
  refine ⟨asked, delivered, hanswered, rfl, hsame, ?_, h.upToDate_iff hchecked hanswered⟩
  intro key hkey
  obtain ⟨n, hn, rfl⟩ := List.mem_map.mp (hpassed hkey)
  exact ⟨n, hn, rfl, StringCheck.get?_of_mem_traversed hfits.consistent.filed hn⟩

/-- The start state that a check is about is taken back before the answer arrives. -/
def takenBack : List App.Action :=
  [.press (.mode .addingStartNode), .click ⟨0, 0⟩, .press .test, .undo, .receive]

theorem not_upToDate_takenBack : ¬ (after none .anonymous takenBack).UpToDate := by
  intro hupToDate
  let w := after none .anonymous takenBack
  let drawn := App.after none .anonymous (takenBack.take 2)
  have h : w.Sound := .after none .anonymous takenBack
  have hchecked : w.app.lastCheck = some drawn.question.run := rfl
  have hanswered : w.answered = some (drawn, (drawn.perform (.press .test)).perform .undo) := rfl
  obtain ⟨⟨_, _, hanswered', hsame⟩, _⟩ := hupToDate _ hchecked
  obtain ⟨rfl, rfl⟩ := Prod.mk.inj (Option.some.inj (hanswered.symm.trans hanswered'))
  have hundone : w.app.editor.history.undoStack = [] := drawn.editor.undoStack_undo
  have hempty : w.app.editor.diagram = .empty := h.fits.diagram_eq_empty_iff.mpr hundone
  have horder : drawn.editor.diagram.order = w.app.editor.diagram.order :=
    congrArg (·.order) (show drawn.editor.diagram.unbent = w.app.editor.diagram.unbent from hsame)
  rw [hempty] at horder
  exact List.cons_ne_nil _ _ horder

end Watched

end AutomatonSketch
