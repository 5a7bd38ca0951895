import AutomatonSketch.Proofs.StoreRequests

/-! Backends that several programs hold on to. A copy of a handle stands for the same backend, so
what is asked through one of them shows through all the others. -/

namespace AutomatonSketch

structure Shared where
  backends : List Backend
  handles : List Nat
  valid : ∀ i ∈ handles, i < backends.length

namespace Shared

open Store

inductive Action where
  | create
  | copy (handle : Nat)
  | ask (handle : Nat) (session : Session) (r : Request)

def start : Shared := ⟨[], [], fun _ hi => absurd hi List.not_mem_nil⟩

/-- The backends after a request through a handle; one that was not given out asks nobody. -/
def asked (p : Shared) (handle : Nat) (session : Session) (r : Request) : List Backend :=
  match p.handles[handle]? with
  | some i => p.backends.modify i (·.ask session r)
  | none => p.backends

theorem length_asked (p : Shared) (handle : Nat) (session : Session) (r : Request) :
    (p.asked handle session r).length = p.backends.length := by
  unfold asked
  split
  · exact List.length_modify ..
  · rfl

theorem valid_create (p : Shared) :
    ∀ i ∈ p.handles ++ [p.backends.length], i < (p.backends ++ [Backend.new]).length := by
  intro i hi
  rw [List.length_append, List.length_singleton]
  rcases List.mem_append.mp hi with hold | hnew
  · exact Nat.lt_succ_of_lt (p.valid i hold)
  · rw [List.mem_singleton.mp hnew]
    exact Nat.lt_succ_self _

theorem valid_copy (p : Shared) (handle : Nat) :
    ∀ i ∈ p.handles ++ p.handles[handle]?.toList, i < p.backends.length := by
  intro i hi
  rcases List.mem_append.mp hi with hold | hcopy
  · exact p.valid i hold
  · exact p.valid i (List.mem_of_getElem? (Option.mem_toList.mp hcopy))

theorem valid_asked (p : Shared) (handle : Nat) (session : Session) (r : Request) :
    ∀ i ∈ p.handles, i < (p.asked handle session r).length := by
  rw [p.length_asked]
  exact p.valid

def perform (p : Shared) : Action → Shared
  | .create => ⟨p.backends ++ [Backend.new], p.handles ++ [p.backends.length], p.valid_create⟩
  | .copy handle => ⟨p.backends, p.handles ++ p.handles[handle]?.toList, p.valid_copy handle⟩
  | .ask handle session r =>
    ⟨p.asked handle session r, p.handles, p.valid_asked handle session r⟩

def run (actions : List Action) : Shared := actions.foldl perform start

def backend (p : Shared) (handle : Fin p.handles.length) : Backend :=
  p.backends.get ⟨p.handles.get handle, p.valid _ (List.get_mem _ _)⟩

end Shared

end AutomatonSketch
