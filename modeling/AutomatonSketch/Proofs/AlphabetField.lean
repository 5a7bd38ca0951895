import AutomatonSketch.Proofs.AlphabetText
import AutomatonSketch.Proofs.Openings
import AutomatonSketch.Proofs.StoreRequests

/-! The alphabet and its field. Applying the field is stable, and the workspace that is asked to take
the alphabet over answers with the same one. An alphabet that has come from elsewhere is shown in the
field, and applying it there loses the comma, if it has one, and nothing else. -/

namespace AutomatonSketch

namespace App

/-- The alphabet that the text in its field stands for. -/
def typedAlphabet (app : App) : List String := Alphabet.sanitize (commaParts app.inputs.alphabet)

section Apply

variable (app : App)

theorem editor_requestAlphabetUpdate :
    app.requestAlphabetUpdate.editor =
      (app.modifyOptions fun o => { o with alphabet := app.typedAlphabet }).editor :=
  editor_askIfOpen _ _ _

theorem inputs_requestAlphabetUpdate :
    app.requestAlphabetUpdate.inputs =
      { app.inputs with alphabet := Alphabet.fieldText app.typedAlphabet } :=
  inputs_askIfOpen _ _ _

theorem alphabet_requestAlphabetUpdate :
    app.requestAlphabetUpdate.editor.options.alphabet = app.typedAlphabet := by
  rw [editor_requestAlphabetUpdate]
  rfl

theorem typedAlphabet_requestAlphabetUpdate :
    app.requestAlphabetUpdate.typedAlphabet = app.typedAlphabet := by
  rw [typedAlphabet, inputs_requestAlphabetUpdate]
  exact Alphabet.sanitize_fieldText_commaParts app.inputs.alphabet

theorem requestAlphabetUpdate_again :
    app.requestAlphabetUpdate.requestAlphabetUpdate.editor = app.requestAlphabetUpdate.editor ∧
      app.requestAlphabetUpdate.requestAlphabetUpdate.inputs = app.requestAlphabetUpdate.inputs := by
  have hsame := app.typedAlphabet_requestAlphabetUpdate
  constructor
  · rw [editor_requestAlphabetUpdate app.requestAlphabetUpdate, hsame, modifyOptions, modifyEditor,
      editor_requestAlphabetUpdate]
    rfl
  · rw [inputs_requestAlphabetUpdate app.requestAlphabetUpdate, hsame,
      inputs_requestAlphabetUpdate]

theorem answers_requestAlphabetUpdate (h : app.opensSaved = true) :
    app.requestAlphabetUpdate.answers =
      app.answers ++ [.alphabetUpdated (.ok app.typedAlphabet)] := by
  have hopen : (app.session.credentials?.bind app.store.get?).isSome = true := h
  obtain ⟨data, hdata⟩ := Option.isSome_iff_exists.mp hopen
  obtain ⟨k, hk, hsaved⟩ := Option.bind_eq_some_iff.mp hdata
  -- What has been sanitized here is sanitized once more there.
  have hecho : Alphabet.sanitize app.typedAlphabet = app.typedAlphabet :=
    Alphabet.sanitize_sanitize _
  have hanswer : (app.store.updateAlphabet app.session app.typedAlphabet).1 =
      .ok app.typedAlphabet := by
    simp only [Store.updateAlphabet, Store.update, Store.credentials, hk, hsaved, hecho]
  have hsent : app.session.credentials?.isSome = true := by rw [hk, Option.isSome_some]
  have hasked : app.requestAlphabetUpdate.answers = app.answers ++
      [.alphabetUpdated (app.store.updateAlphabet app.session app.typedAlphabet).1] :=
    congrArg App.answers (if_pos hsent)
  rw [hasked, hanswer]

theorem receive_alphabet {alphabet : List String} (hset : app.editor.options.alphabet = alphabet)
    (hshown : app.inputs.alphabet = Alphabet.fieldText alphabet) :
    app.receive (.alphabetUpdated (.ok alphabet)) = { app with inFlight := app.inFlight - 1 } := by
  subst hset
  rw [receive, applyAnswer, applyResult, ← hshown]
  rfl

end Apply

/-- What is applied are the characters among the entries of the text. Applied once more they stay as
they are, and so does the text. A saved workspace that is open is asked to take them over, and when
its answer arrives with nothing changed in between, it changes nothing. -/
theorem requestAlphabetUpdate_stable (app : App) :
    let applied := app.requestAlphabetUpdate
    let alphabet := applied.editor.options.alphabet
    (∃ entries, Alphabet.Entries app.inputs.alphabet.toList entries ∧
        ∀ cs, Alphabet.Collects entries cs ↔ alphabet = cs.map String.singleton) ∧
      (applied.requestAlphabetUpdate.editor = applied.editor ∧
        applied.requestAlphabetUpdate.inputs = applied.inputs) ∧
      (app.opensSaved = true →
        applied.answers = app.answers ++ [.alphabetUpdated (.ok alphabet)] ∧
          ∀ later : App, later.editor.options.alphabet = alphabet →
            later.inputs.alphabet = applied.inputs.alphabet →
            later.receive (.alphabetUpdated (.ok alphabet)) =
              { later with inFlight := later.inFlight - 1 }) := by
  intro applied alphabet
  have halphabet : alphabet = app.typedAlphabet := app.alphabet_requestAlphabetUpdate
  have hfield : applied.inputs.alphabet = Alphabet.fieldText alphabet := by
    rw [halphabet, show applied.inputs = _ from app.inputs_requestAlphabetUpdate]
  refine ⟨⟨splitAll ',' app.inputs.alphabet.toList, Alphabet.entries_iff.mpr rfl, ?_⟩,
    app.requestAlphabetUpdate_again, ?_⟩
  · intro cs
    have hcollected := Alphabet.collects_letters app.inputs.alphabet.toList
    rw [halphabet, typedAlphabet, Alphabet.sanitize_commaParts]
    constructor
    · intro h
      rw [hcollected.unique h]
    · intro h
      have hsame : Alphabet.keepFirst (Alphabet.letters app.inputs.alphabet.toList) = cs :=
        List.map_injective_iff.mpr (fun _ _ => String.singleton_inj.mp) h
      exact hsame ▸ hcollected
  · intro hsaved
    refine ⟨halphabet ▸ app.answers_requestAlphabetUpdate hsaved, ?_⟩
    intro later hset hshown
    exact later.receive_alphabet hset (hshown.trans hfield)

/-- A workspace has been saved, and a text typed with a repeated and a long entry. -/
def typing : App :=
  after none ⟨some "w", some "m"⟩ [.save, .receive, .edit " 0,1, 1,xy,, \u2003, 0" .alphabet]

theorem requestAlphabetUpdate_stable_typing :
    let alphabet := typing.requestAlphabetUpdate.editor.options.alphabet
    typing.opensSaved = true ∧ alphabet = ["0", "1"] ∧
      typing.requestAlphabetUpdate.receive (.alphabetUpdated (.ok alphabet)) =
        { typing.requestAlphabetUpdate with inFlight := 0 } := by
  intro alphabet
  have hsaved : typing.opensSaved = true := by decide +kernel
  have halphabet : alphabet = ["0", "1"] := by decide +kernel
  have hstable := (requestAlphabetUpdate_stable typing).2.2 hsaved
  have harrived := hstable.2 typing.requestAlphabetUpdate rfl rfl
  have hwaiting : typing.requestAlphabetUpdate.inFlight - 1 = 0 := by decide +kernel
  rw [hwaiting] at harrived
  exact ⟨hsaved, halphabet, harrived⟩

/-- The field shows the alphabet that is set. -/
def ShowsAlphabet (app : App) : Prop :=
  app.inputs.alphabet = Alphabet.fieldText app.editor.options.alphabet

theorem ShowsAlphabet.typedAlphabet {app : App} (h : app.ShowsAlphabet) {entries : List String}
    (halphabet : app.editor.options.alphabet = Alphabet.sanitize entries) :
    app.typedAlphabet = (Alphabet.sanitize entries).filter (· ≠ ",") := by
  rw [App.typedAlphabet, h, halphabet]
  exact Alphabet.sanitize_fieldText entries

theorem showsAlphabet_of_opened? {app : App} {event : Event} {o : WorkspaceOptions}
    (h : app.opened? event = some o) : (app.undergo event).ShowsAlphabet := by
  obtain ⟨before, editor, path, view, _, hopened⟩ := exists_takeOver_of_opened? h
  rw [hopened]
  rfl

/-- A workspace with this alphabet has been opened, from an answer, a file or the stored state, and
nothing has been edited since then. -/
inductive JustOpened (alphabet : List String) : App → Prop
  | opened {app : App} {event : Event} {o : WorkspaceOptions} (h : app.opened? event = some o)
      (ho : o.alphabet = alphabet) : JustOpened alphabet (app.undergo event)
  | started {stored : Option String} {o : WorkspaceOptions} (environment : Session)
      (h : storedSettings? stored = some o) (ho : o.alphabet = alphabet) :
      JustOpened alphabet (start stored environment)

namespace JustOpened

variable {alphabet : List String} {app : App}

theorem held (h : app.JustOpened alphabet) : app.editor.options.alphabet = alphabet := by
  cases h with
  | opened h ho => rw [options_of_opened? h, ho]
  | @started stored o environment h ho =>
    obtain ⟨app, happ, rfl⟩ := Option.map_eq_some_iff.mp h
    rw [start, happ]
    exact ho

theorem shows (h : app.JustOpened alphabet) : app.ShowsAlphabet := by
  cases h with
  | opened h _ => exact showsAlphabet_of_opened? h
  | started => rfl

end JustOpened

/-- An alphabet is shown where it has been opened, and applied there without an edit it is kept but for
the comma. -/
theorem requestAlphabetUpdate_unedited (entries : List String) {app : App}
    (h : app.JustOpened (Alphabet.sanitize entries)) :
    let alphabet := app.editor.options.alphabet
    let applied := app.requestAlphabetUpdate.editor.options.alphabet
    (alphabet = Alphabet.sanitize entries ∧ app.inputs.alphabet = Alphabet.fieldText alphabet) ∧
      applied = alphabet.filter (· ≠ ",") ∧ (applied = alphabet ↔ "," ∉ alphabet) := by
  intro alphabet applied
  have hheld : alphabet = Alphabet.sanitize entries := h.held
  have happlied : applied = alphabet.filter (· ≠ ",") := by
    rw [hheld, ← h.shows.typedAlphabet h.held]
    exact app.alphabet_requestAlphabetUpdate
  refine ⟨⟨hheld, h.shows⟩, happlied, ?_⟩
  rw [happlied, Alphabet.filter_comma_eq_self_iff]

/-- A workspace file whose alphabet has a comma in the middle. -/
def listingComma : Event :=
  .act (.readFile (.workspaceRead "w.json" "\x7b\"alphabet\":[\"b\",\",\",\"a\"]\x7d"))

theorem justOpened_listingComma :
    (initial.undergo listingComma).JustOpened (Alphabet.sanitize [" b", "ab", ",", "b", "a"]) := by
  have hopened : initial.opened? listingComma =
      some { WorkspaceOptions.initial with alphabet := ["b", ",", "a"] } := by decide +kernel
  exact .opened hopened (by decide)

theorem requestAlphabetUpdate_unedited_listingComma :
    let app := initial.undergo listingComma
    app.JustOpened (Alphabet.sanitize [" b", "ab", ",", "b", "a"]) ∧
      app.inputs.alphabet = "b, ,, a" ∧
      app.requestAlphabetUpdate.editor.options.alphabet = ["b", "a"] := by
  have hopened := justOpened_listingComma
  generalize initial.undergo listingComma = app at hopened ⊢
  have hentries : Alphabet.sanitize [" b", "ab", ",", "b", "a"] = ["b", ",", "a"] := by decide
  have htext : Alphabet.fieldText ["b", ",", "a"] = "b, ,, a" := by decide +kernel
  obtain ⟨⟨hheld, hshown⟩, happlied, _⟩ := requestAlphabetUpdate_unedited _ hopened
  rw [hheld, hentries] at hshown happlied
  exact ⟨hopened, hshown.trans htext, happlied⟩

theorem not_kept_listingComma :
    let app := initial.undergo listingComma
    app.JustOpened (Alphabet.sanitize [" b", "ab", ",", "b", "a"]) ∧
      app.requestAlphabetUpdate.editor.options.alphabet ≠ app.editor.options.alphabet := by
  have hopened := justOpened_listingComma
  have hlost : "," ∉ (initial.undergo listingComma).requestAlphabetUpdate.editor.options.alphabet := by
    decide +kernel
  generalize initial.undergo listingComma = app at hopened hlost ⊢
  refine ⟨hopened, ?_⟩
  intro hkept
  rw [hkept, hopened.held] at hlost
  exact absurd hlost (by decide)

end App

end AutomatonSketch
