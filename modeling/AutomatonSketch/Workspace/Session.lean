import AutomatonSketch.Text.Blank

/-! Who is signed in, and which workspace is open. -/

namespace AutomatonSketch

/-- What a saved workspace is stored under. -/
structure Credentials where
  workspace : String
  email : String
deriving DecidableEq

namespace Credentials

def order : Credentials → Credentials → Ordering :=
  compareLex (compareOn Credentials.workspace) (compareOn Credentials.email)

instance : Ord Credentials := ⟨order⟩

instance : Std.TransOrd Credentials :=
  inferInstanceAs (Std.TransCmp (compareLex (compareOn workspace) (compareOn email)))

theorem eq_of_order {a b : Credentials} (h : order a b = .eq) : a = b := by
  have h' : (compare a.workspace b.workspace).then (compare a.email b.email) = .eq := h
  obtain ⟨h1, h2⟩ := Ordering.then_eq_eq.1 h'
  have h1 := Std.LawfulEqCmp.eq_of_compare h1
  have h2 := Std.LawfulEqCmp.eq_of_compare h2
  cases a; cases b; simp_all

instance : Std.LawfulEqOrd Credentials where
  compare_self := Std.ReflCmp.compare_self
  eq_of_compare h := eq_of_order h

end Credentials

structure Session where
  workspace : Option String
  email : Option String
deriving DecidableEq

namespace Session

def anonymous : Session := ⟨none, none⟩

instance : Inhabited Session := ⟨anonymous⟩

/-- The value of a variable without the blanks around it, if anything is left. -/
def setting (value : Option String) : Option String :=
  value.bind fun v => if trim v = "" then none else some (trim v)

/-- The session that two environment variables describe. -/
def ofEnvironment (workspace email : Option String) : Session := ⟨setting workspace, setting email⟩

/-- Fills what is missing from another session. -/
def orElse (a b : Session) : Session := ⟨a.workspace.or b.workspace, a.email.or b.email⟩

/-- What a workspace is saved under, if both parts are known. -/
def credentials? (s : Session) : Option Credentials :=
  match s.workspace, s.email with
  | some workspace, some email => some ⟨workspace, email⟩
  | _, _ => none

end Session

end AutomatonSketch
