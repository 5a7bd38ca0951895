import AutomatonSketch.Proofs.AlphabetText
import AutomatonSketch.Proofs.Failures
import AutomatonSketch.Proofs.Settings

/-! Requests to a store. What is saved under some credentials is what the requests made under these
credentials come to: the workspace saved last, with the settings sent since then. -/

namespace AutomatonSketch

namespace Setting

/-- What a store keeps of a value that it is sent, if it takes it. -/
def kept? : (s : Setting) → s.Value → Option s.Value
  | alphabet, entries => some (Alphabet.sanitize entries)
  | edgeLabel, label => if label.length = 1 then some label else none
  | strict, value | showTraversal, value => some value

end Setting

namespace Store

inductive Request where
  | save (data : Snapshot)
  | load
  | set (s : Setting) (value : s.Value)

def serve (store : Store) (session : Session) : Request → Answer × Store
  | .save data => (store.save session data).map .saved id
  | .load => (.loaded (store.load session), store)
  | .set .alphabet entries => (store.updateAlphabet session entries).map .alphabetUpdated id
  | .set .edgeLabel label => (store.updateEdgeLabel session label).map .edgeLabelUpdated id
  | .set .strict value => (store.updateStrict session value).map .strictUpdated id
  | .set .showTraversal value => (store.updateTraversal session value).map .traversalUpdated id

/-- A request, with the session that made it and the answer that it got. -/
structure Exchange where
  session : Session
  request : Request
  answer : Answer

namespace Exchange

def Under (k : Credentials) (x : Exchange) : Prop := x.session.credentials? = some k

instance (k : Credentials) (x : Exchange) : Decidable (x.Under k) :=
  inferInstanceAs (Decidable (_ = _))

/-- What a setting that was taken over changes: it is now what the answer says. -/
def change? (x : Exchange) : Option (WorkspaceOptions → WorkspaceOptions) :=
  match x.request with
  | .set s _ => (s.carried? x.answer).map s.put
  | _ => none

/-- What becomes of the workspace that an exchange is about, if there is one. -/
def leaves (saved : Option Snapshot) (x : Exchange) : Option Snapshot :=
  match x.request with
  | .save data => some data
  | _ => saved.map fun data => { data with options := (x.change?.getD id) data.options }

end Exchange

/-- What the settings taken over in a row of exchanges make of the settings before them. -/
def settle (exchanges : List Exchange) (options : WorkspaceOptions) : WorkspaceOptions :=
  (exchanges.filterMap Exchange.change?).foldl (fun o change => change o) options

section Served

variable (store : Store) (session : Session)

theorem update_cases {α : Type} (command : String) (value : α)
    (change : WorkspaceOptions → WorkspaceOptions) :
    (∃ k data, session.credentials? = some k ∧ store.get? k = some data ∧
      store.update command session value change =
        (.ok value, store.insert k { data with options := change data.options })) ∨
    ((∀ k, session.credentials? = some k → store.get? k = none) ∧ ∃ reason,
      store.update command session value change =
        (.error (.rejected command reason), store)) := by
  cases hk : session.credentials? with
  | none =>
    refine .inr ⟨by simp, "no workspace is open", ?_⟩
    simp only [update, credentials, hk]
  | some k =>
    cases hsaved : store.get? k with
    | none =>
      refine .inr ⟨by simpa using hsaved, "no saved workspace named '" ++ k.workspace ++ "'", ?_⟩
      simp only [update, credentials, hk, hsaved, noWorkspace]
    | some data => exact .inl ⟨k, data, rfl, hsaved, by simp only [update, credentials, hk, hsaved]⟩

theorem save_cases (data : Snapshot) :
    (∃ k, session.credentials? = some k ∧
      store.save session data = (.ok (), store.insert k data)) ∨
    (session.credentials? = none ∧ ∃ command reason,
      store.save session data = (.error (.rejected command reason), store)) := by
  cases hk : session.credentials? with
  | none =>
    refine .inr ⟨rfl, "save_workspace", "no workspace is open", ?_⟩
    simp only [save, credentials, hk]
  | some k => exact .inl ⟨k, rfl, by simp only [save, credentials, hk]⟩

theorem serve_set_of_kept {s : Setting} {value kept : s.Value} (h : s.kept? value = some kept) :
    ∃ command, store.serve session (.set s value) =
      (store.update command session kept (s.put kept)).map s.answer id := by
  cases s with
  | alphabet | strict | showTraversal =>
    obtain rfl := Option.some.inj h
    exact ⟨_, rfl⟩
  | edgeLabel =>
    have hone : value.length = 1 := by_contra fun hone => by simp [Setting.kept?, hone] at h
    simp only [Setting.kept?, if_pos hone, Option.some.injEq] at h
    subst h
    exact ⟨_, congrArg (Prod.map Answer.edgeLabelUpdated id) (if_pos hone)⟩

theorem serve_set_of_not_kept {s : Setting} {value : s.Value} (h : s.kept? value = none) :
    ∃ command reason, store.serve session (.set s value) =
      (s.answer (.error (.rejected command reason)), store) := by
  cases s with
  | alphabet | strict | showTraversal => exact absurd h (Option.some_ne_none _)
  | edgeLabel =>
    have hone : value.length ≠ 1 := fun hone => by simp [Setting.kept?, hone] at h
    exact ⟨_, _, congrArg (Prod.map Answer.edgeLabelUpdated id) (if_neg hone)⟩

theorem set_cases (s : Setting) (value : s.Value) :
    (∃ k data kept, session.credentials? = some k ∧ store.get? k = some data ∧
      s.kept? value = some kept ∧ store.serve session (.set s value) =
        (s.answer (.ok kept), store.insert k { data with options := s.put kept data.options })) ∨
    ((∀ k, session.credentials? = some k → s.kept? value = none ∨ store.get? k = none) ∧
      ∃ command reason, store.serve session (.set s value) =
        (s.answer (.error (.rejected command reason)), store)) := by
  cases hkept : s.kept? value with
  | none => exact .inr ⟨fun _ _ => .inl rfl, store.serve_set_of_not_kept session hkept⟩
  | some kept =>
    obtain ⟨command, hserve⟩ := store.serve_set_of_kept session hkept
    rcases store.update_cases session command kept (s.put kept) with
      ⟨k, data, hk, hsaved, heq⟩ | ⟨hnone, reason, heq⟩
    · exact .inl ⟨k, data, kept, hk, hsaved, rfl, by rw [hserve, heq]; rfl⟩
    · exact .inr ⟨fun k hk => .inr (hnone k hk), command, reason, by rw [hserve, heq]; rfl⟩

/-- What an exchange leaves under its own credentials is all that it changes. -/
theorem get?_serve (r : Request) (k : Credentials) :
    (store.serve session r).2.get? k =
      if session.credentials? = some k then
        Exchange.leaves (store.get? k) ⟨session, r, (store.serve session r).1⟩
      else store.get? k := by
  have hput (own : Credentials) (data : Snapshot) (hown : session.credentials? = some own) :
      (store.insert own data).get? k =
        if session.credentials? = some k then some data else store.get? k := by
    rw [Table.get?_insert, hown]
    simp only [Option.some.injEq]
  cases r with
  | load =>
    show store.get? k = if _ then (store.get? k).map id else store.get? k
    rw [Option.map_id, id, ite_self]
  | save data =>
    rcases store.save_cases session data with ⟨own, hown, heq⟩ | ⟨hnone, command, reason, heq⟩
    · simp only [serve, heq, Prod.map, id]
      exact hput own data hown
    · simp [serve, heq, hnone]
  | set s value =>
    rcases store.set_cases session s value with
      ⟨own, data, kept, hown, hsaved, hkept, heq⟩ | ⟨hnone, command, reason, heq⟩
    · rw [heq, hput own _ hown]
      by_cases hk : session.credentials? = some k
      · obtain rfl : own = k := Option.some.inj (hown.symm.trans hk)
        simp [hk, hsaved, Exchange.leaves, Exchange.change?, Setting.carried?_answer,
          Except.toOption]
      · simp [hk]
    · rw [heq]
      -- A refused setting changes nothing, whosever workspace it was for.
      have hsame : Exchange.leaves (store.get? k)
          ⟨session, .set s value, s.answer (.error (.rejected command reason))⟩ = store.get? k := by
        simp [Exchange.leaves, Exchange.change?, Setting.carried?_answer, Except.toOption]
      rw [hsame, ite_self]

end Served

section Exchanges

variable {x : Exchange} {exchanges : List Exchange}

end Exchanges

end Store

/-- A store with the exchanges that it took part in. -/
structure Backend where
  store : Store
  log : List Store.Exchange

namespace Backend

open Store

def new : Backend := ⟨.empty, []⟩

def ask (b : Backend) (session : Session) (r : Request) : Backend :=
  { store := (b.store.serve session r).2
    log := b.log ++ [⟨session, r, (b.store.serve session r).1⟩] }

def logUnder (b : Backend) (k : Credentials) : List Exchange := b.log.filter (·.Under k)

/-- What is saved is what the exchanges left. -/
def Recorded (b : Backend) : Prop :=
  ∀ k, b.store.get? k = (b.logUnder k).foldl Exchange.leaves none

theorem Recorded.ask {b : Backend} (h : b.Recorded) (session : Session) (r : Request) :
    (b.ask session r).Recorded := by
  intro k
  show (b.store.serve session r).2.get? k = _
  rw [get?_serve, h k]
  by_cases hk : session.credentials? = some k
  · rw [if_pos hk]
    simp [Backend.ask, logUnder, Exchange.Under, hk]
  · rw [if_neg hk]
    simp [Backend.ask, logUnder, Exchange.Under, hk]

section Recorded

variable {b : Backend} (h : b.Recorded)

include h

end Recorded

end Backend

end AutomatonSketch
