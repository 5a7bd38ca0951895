import AutomatonSketch.App.Files
import AutomatonSketch.Proofs.EditorRuns

/-! Results that fail: errors, workspaces that cannot be restored, and files that cannot be read.
However many of them arrive, they leave a message and nothing else. -/

namespace AutomatonSketch

theorem Snapshot.exists_error_of_not_accepted {data : Snapshot} (h : ¬ data.Accepted) :
    ∃ e, data.restore = .error e := by
  cases hrestore : data.restore with
  | ok d => exact absurd (restore_eq_ok_iff.mp hrestore).1 h
  | error e => exact ⟨e, rfl⟩

namespace Answer

/-- The error that an answer carries, whatever was asked for. -/
def error? : Answer → Option StoreError
  | .checked (.error e) | .saved (.error e) | .loaded (.error e) | .alphabetUpdated (.error e)
  | .strictUpdated (.error e) | .traversalUpdated (.error e) | .edgeLabelUpdated (.error e) => some e
  | _ => none

def Fails (answer : Answer) : Prop :=
  answer.error?.isSome ∨ ∃ data, answer = .loaded (.ok data) ∧ ¬ data.Accepted

/-- What is shown for an answer that fails. -/
def complaint? : Answer → Option String
  | .loaded (.ok data) =>
    match data.restore with
    | .ok _ => none
    | .error e => some (StoreError.malformed Store.loadCommand e.message).message
  | answer => answer.error?.map StoreError.message

theorem complaint?_of_error? {answer : Answer} {e : StoreError} (h : answer.error? = some e) :
    answer.complaint? = some e.message := by
  unfold complaint?
  split
  · exact absurd h (by simp [error?])
  · rw [h, Option.map_some]

theorem Fails.isSome_complaint? {answer : Answer} (h : answer.Fails) :
    answer.complaint?.isSome := by
  rcases h with herror | ⟨data, rfl, hdata⟩
  · obtain ⟨e, he⟩ := Option.isSome_iff_exists.mp herror
    simp [complaint?_of_error? he]
  · obtain ⟨e, he⟩ := Snapshot.exists_error_of_not_accepted hdata
    simp [complaint?, he]

end Answer

namespace FileResult

def Fails : FileResult → Prop
  | .workspaceRead _ content => ∀ data, Snapshot.ofText content = .ok data → ¬ data.Accepted
  | .parseTreeRead _ content => ∀ tree, ParseTree.ofText content ≠ .ok tree
  | .failed _ => True
  | .saved _ => False

/-- What is shown for a file operation that fails. -/
def complaint? : FileResult → Option String
  | .workspaceRead path content =>
    match (Snapshot.ofText content).bind Snapshot.restore with
    | .ok _ => none
    | .error e => some ("Could not open " ++ path ++ ": " ++ e.message)
  | .parseTreeRead path content =>
    match ParseTree.ofText content with
    | .ok _ => none
    | .error problem =>
      some ("Could not read a parse tree from " ++ path ++ ": " ++ problem.message)
  | .failed message => some message
  | .saved _ => none

theorem Fails.isSome_complaint? {result : FileResult} (h : result.Fails) :
    result.complaint?.isSome := by
  cases result with
  | saved path => exact absurd h id
  | failed message => rfl
  | parseTreeRead path content =>
    cases hread : ParseTree.ofText content with
    | ok tree => exact absurd hread (h tree)
    | error problem => simp [complaint?, hread]
  | workspaceRead path content =>
    cases hread : Snapshot.ofText content with
    | error e => simp [complaint?, hread, Except.bind]
    | ok data =>
      obtain ⟨e, he⟩ := Snapshot.exists_error_of_not_accepted (h data hread)
      simp [complaint?, hread, Except.bind, he]

end FileResult

/-- Shows the last of several messages; without any, what is shown stays. -/
def Editor.sayLast (e : Editor) (messages : List String) : Editor :=
  { e with dialogue := messages.getLast?.or e.dialogue }

namespace App

variable (app : App)

theorem applyAnswer_of_complaint? {answer : Answer} {message : String}
    (h : answer.complaint? = some message) : app.applyAnswer answer = app.say message := by
  cases answer with
  | loaded result =>
    cases result with
    | error e =>
      obtain rfl := Option.some.inj h
      rfl
    | ok data =>
      cases hrestore : data.restore with
      | ok d => simp [Answer.complaint?, hrestore] at h
      | error e =>
        simp only [Answer.complaint?, hrestore, Option.some.injEq] at h
        subst h
        simp only [applyAnswer, applyResult, applyLoaded, Editor.restore, hrestore]
  | checked result | saved result | alphabetUpdated result | strictUpdated result
  | traversalUpdated result | edgeLabelUpdated result =>
    cases result with
    | ok a => simp [Answer.complaint?, Answer.error?] at h
    | error e =>
      obtain rfl := Option.some.inj h
      rfl

theorem applyFileResult_of_complaint? {result : FileResult} {message : String}
    (h : result.complaint? = some message) : app.applyFileResult result = app.say message := by
  cases result with
  | saved path => simp [FileResult.complaint?] at h
  | failed _ =>
    obtain rfl := Option.some.inj h
    rfl
  | parseTreeRead path content =>
    cases hread : ParseTree.ofText content with
    | ok tree => simp [FileResult.complaint?, hread] at h
    | error problem =>
      simp only [FileResult.complaint?, hread, Option.some.injEq] at h
      simp only [applyFileResult, applyParseTreeText, hread, h]
  | workspaceRead path content =>
    cases hread : Snapshot.ofText content with
    | error e =>
      simp only [FileResult.complaint?, hread, Except.bind, Option.some.injEq] at h
      simp only [applyFileResult, applyWorkspaceText, hread, Except.bind, h]
    | ok data =>
      cases hrestore : data.restore with
      | ok d => simp [FileResult.complaint?, hread, Except.bind, hrestore] at h
      | error e =>
        simp only [FileResult.complaint?, hread, Except.bind, hrestore, Option.some.injEq] at h
        simp only [applyFileResult, applyWorkspaceText, hread, Except.bind, Editor.restore,
          hrestore, h]

/-- Results that fail one after the other, each of which takes `spent` off the requests under way. -/
theorem foldl_of_complaints {α : Type} {apply : App → α → App} {complaint? : α → Option String}
    (spent : Nat) (hstep : ∀ app a message, complaint? a = some message →
      apply app a = { app.say message with inFlight := app.inFlight - spent })
    {results : List α} (hfail : ∀ a ∈ results, (complaint? a).isSome) (app : App) :
    results.foldl apply app =
      { app with
        inFlight := app.inFlight - spent * results.length
        editor := app.editor.sayLast (results.filterMap complaint?) } := by
  induction results generalizing app with
  | nil => simp [Editor.sayLast]
  | cons a later ih =>
    obtain ⟨message, ha⟩ := Option.isSome_iff_exists.mp (hfail a List.mem_cons_self)
    have hlater := ih fun b hb => hfail b (List.mem_cons_of_mem a hb)
    have hspent : app.inFlight - spent - spent * later.length =
        app.inFlight - spent * (later.length + 1) := by
      rw [Nat.sub_sub, Nat.mul_succ, Nat.add_comm]
    have hlast : (app.editor.say message).sayLast (later.filterMap complaint?) =
        app.editor.sayLast ((a :: later).filterMap complaint?) := by
      rw [List.filterMap_cons_some ha, Editor.sayLast, Editor.sayLast, List.getLast?_cons]
      cases (later.filterMap complaint?).getLast? <;> rfl
    rw [List.foldl_cons, hstep app a message ha, hlater, List.length_cons, ← hspent, ← hlast]
    rfl

theorem drain_of_fails (h : ∀ answer ∈ app.answers, answer.Fails) :
    app.drain =
      { app with
        answers := []
        inFlight := app.inFlight - app.answers.length
        editor := app.editor.sayLast (app.answers.filterMap Answer.complaint?) } := by
  have hreceive (app : App) (answer : Answer) (message : String)
      (hsaid : answer.complaint? = some message) :
      app.receive answer = { app.say message with inFlight := app.inFlight - 1 } :=
    applyAnswer_of_complaint? { app with inFlight := app.inFlight - 1 } hsaid
  have hrun := foldl_of_complaints 1 hreceive (fun answer ha => (h answer ha).isSome_complaint?)
    { app with answers := [] }
  rwa [Nat.one_mul] at hrun

theorem drainFiles_of_fails (h : ∀ result ∈ app.fileResults, result.Fails) :
    app.drainFiles =
      { app with
        fileResults := []
        editor := app.editor.sayLast (app.fileResults.filterMap FileResult.complaint?) } := by
  have hrun := foldl_of_complaints 0 (fun app _ _ => app.applyFileResult_of_complaint?)
    (fun result hr => (h result hr).isSome_complaint?) { app with fileResults := [] }
  rwa [Nat.zero_mul] at hrun

/-- Whatever fails, and however much of it arrives at once, the message is all that changes; and an
editor that refuses a workspace does not even change that. -/
theorem failures_change_message_only :
    (∀ answer : Answer, answer.Fails → ∃ message, answer.complaint? = some message ∧
      app.applyAnswer answer =
        { app with editor := { app.editor with dialogue := some message } }) ∧
    (∀ result : FileResult, result.Fails → ∃ message, result.complaint? = some message ∧
      app.applyFileResult result =
        { app with editor := { app.editor with dialogue := some message } }) ∧
    ((∀ answer ∈ app.answers, answer.Fails) → app.drain =
      { app with
        answers := []
        inFlight := app.inFlight - app.answers.length
        editor := app.editor.sayLast (app.answers.filterMap Answer.complaint?) }) ∧
    ((∀ result ∈ app.fileResults, result.Fails) → app.drainFiles =
      { app with
        fileResults := []
        editor := app.editor.sayLast (app.fileResults.filterMap FileResult.complaint?) }) ∧
    ∀ (e : Editor) (data : Snapshot), ¬ data.Accepted →
      (∃ err, e.restore data = .error err) ∧ e.perform (.restore data) = e := by
  refine ⟨?_, ?_, ?_, ?_, ?_⟩
  · intro answer h
    obtain ⟨message, hmessage⟩ := Option.isSome_iff_exists.mp h.isSome_complaint?
    exact ⟨message, hmessage, app.applyAnswer_of_complaint? hmessage⟩
  · intro result h
    obtain ⟨message, hmessage⟩ := Option.isSome_iff_exists.mp h.isSome_complaint?
    exact ⟨message, hmessage, app.applyFileResult_of_complaint? hmessage⟩
  · exact app.drain_of_fails
  · exact app.drainFiles_of_fails
  · intro e data h
    obtain ⟨err, herr⟩ := Snapshot.exists_error_of_not_accepted h
    have hrefused : e.restore data = .error err := by simp only [Editor.restore, herr]
    exact ⟨⟨err, hrefused⟩, by simp only [Editor.perform, hrefused]⟩

end App

end AutomatonSketch
