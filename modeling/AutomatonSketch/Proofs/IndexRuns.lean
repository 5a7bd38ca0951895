import AutomatonSketch.Diagram.Basic
import AutomatonSketch.Proofs.Keys
import Mathlib.Logic.Function.Basic

/-! An index is used by coordinate and by key. What stands behind it is a plain map from
coordinates: no run of operations tells the two apart. -/

namespace AutomatonSketch

namespace StateKey

/-- The coordinate that a key is the key of; most texts that can be read as a coordinate are not its
key. -/
def named? (key : StateKey) : Option Coordinate :=
  key.coordinate.toOption.filter fun c => c.key = key

theorem named?_eq_some_iff {key : StateKey} {c : Coordinate} :
    key.named? = some c ↔ c.key = key := by
  unfold named?
  constructor
  · intro h
    simpa using (Option.filter_eq_some_iff.mp h).2
  · rintro rfl
    simp [Coordinate.coordinate_key, Except.toOption]

@[simp] theorem named?_key (c : Coordinate) : c.key.named? = some c := named?_eq_some_iff.mpr rfl

end StateKey

/-- A state, or none, at every coordinate. -/
abbrev Layout := Coordinate → Option Node

namespace StateIndex

inductive Action where
  | get (c : Coordinate)
  | getKey (key : StateKey)
  | contains (c : Coordinate)
  | set (c : Coordinate) (n : Node)
  | delete (c : Coordinate)
  | modify (key : StateKey) (f : Node → Node)
  | clear

inductive Reply where
  | node (n : Option Node)
  | present (found : Bool)
  | done

def perform (index : StateIndex) : Action → Reply × StateIndex
  | .get c => (.node (index.at? c), index)
  | .getKey key => (.node (index.get? key), index)
  | .contains c => (.present (index.at? c).isSome, index)
  | .set c n => (index.set c n).map .node id
  | .delete c => (index.delete c).map .node id
  | .modify key f => (.node (index.get? key), index.modify key f)
  | .clear => (.done, .empty)

section Runs

variable {σ : Type} (perform : σ → Action → Reply × σ)

def replies : σ → List Action → List Reply
  | _, [] => []
  | s, action :: later => (perform s action).1 :: replies (perform s action).2 later

def after (s : σ) (actions : List Action) : σ :=
  actions.foldl (fun s action => (perform s action).2) s

end Runs

end StateIndex

namespace Layout

open StateIndex

def empty : Layout := fun _ => none

def under (layout : Layout) (key : StateKey) : Option Node := key.named?.bind layout

def put (layout : Layout) (c : Coordinate) (n : Option Node) : Layout := Function.update layout c n

def perform (layout : Layout) : Action → Reply × Layout
  | .get c => (.node (layout c), layout)
  | .getKey key => (.node (layout.under key), layout)
  | .contains c => (.present (layout c).isSome, layout)
  | .set c n => (.node (layout c), layout.put c (some n))
  | .delete c => (.node (layout c), layout.put c none)
  | .modify key f =>
    (.node (layout.under key),
      match key.named? with
      | some c => layout.put c ((layout c).map f)
      | none => layout)
  | .clear => (.done, empty)

theorem under_key (layout : Layout) (c : Coordinate) : layout.under c.key = layout c := by
  rw [under, StateKey.named?_key, Option.bind_some]

theorem under_empty (key : StateKey) : Layout.under .empty key = none := by
  unfold under
  cases key.named? <;> rfl

theorem under_put (layout : Layout) (c : Coordinate) (n : Option Node) (key : StateKey) :
    (layout.put c n).under key = if c.key = key then n else layout.under key := by
  by_cases hkey : c.key = key
  · rw [if_pos hkey, ← hkey, under_key]
    exact Function.update_self c n layout
  · rw [if_neg hkey]
    cases hnamed : key.named? with
    | none => simp only [under, hnamed, Option.bind_none]
    | some c' =>
      have hne : c' ≠ c := fun h => hkey (h ▸ StateKey.named?_eq_some_iff.mp hnamed)
      simp only [under, hnamed, Option.bind_some]
      exact Function.update_of_ne hne n layout

end Layout

namespace StateIndex

/-- What is filed under the key of a coordinate is what the layout has there, and under no other key
is anything filed. -/
def Shows (index : StateIndex) (layout : Layout) : Prop :=
  ∀ key, index.get? key = layout.under key

theorem shows_empty : Shows .empty Layout.empty := fun key => (Layout.under_empty key).symm

section Shows

variable {index : StateIndex} {layout : Layout} (h : index.Shows layout)

include h

theorem Shows.at?_eq (c : Coordinate) : index.at? c = layout c := by
  rw [at?, h, layout.under_key]

theorem Shows.insert (c : Coordinate) (n : Node) :
    Shows (index.insert c.key n) (layout.put c (some n)) := by
  intro key
  rw [Table.get?_insert, layout.under_put, h]

theorem Shows.erase (c : Coordinate) : Shows (index.erase c.key) (layout.put c none) := by
  intro key
  rw [Table.get?_erase, layout.under_put, h]

theorem Shows.perform (action : Action) :
    (index.perform action).1 = (layout.perform action).1 ∧
      (index.perform action).2.Shows (layout.perform action).2 := by
  cases action with
  | get c => exact ⟨congrArg Reply.node (h.at?_eq c), h⟩
  | getKey key => exact ⟨congrArg Reply.node (h key), h⟩
  | contains c =>
    refine ⟨?_, h⟩
    simp only [StateIndex.perform, Layout.perform, h.at?_eq]
  | set c n => exact ⟨congrArg Reply.node (h.at?_eq c), h.insert c n⟩
  | delete c => exact ⟨congrArg Reply.node (h.at?_eq c), h.erase c⟩
  | clear => exact ⟨rfl, shows_empty⟩
  | modify key f =>
    refine ⟨congrArg Reply.node (h key), ?_⟩
    cases hnamed : key.named? with
    | none =>
      -- Nothing is filed under a key that no coordinate has, so there is nothing to modify.
      have hmodify : index.modify key f = index := by
        simp [Table.modify, h key, Layout.under, hnamed]
      simpa only [StateIndex.perform, Layout.perform, hnamed, hmodify] using h
    | some c =>
      obtain rfl := StateKey.named?_eq_some_iff.mp hnamed
      intro key'
      simp only [StateIndex.perform, Layout.perform, hnamed, Table.get?_modify, Layout.under_put]
      by_cases hkey : c.key = key'
      · rw [if_pos hkey, if_pos hkey, ← hkey, h, layout.under_key]
      · rw [if_neg hkey, if_neg hkey, h]

theorem Shows.run (actions : List Action) :
    replies StateIndex.perform index actions = replies Layout.perform layout actions ∧
      (after StateIndex.perform index actions).Shows (after Layout.perform layout actions) := by
  induction actions generalizing index layout with
  | nil => exact ⟨rfl, h⟩
  | cons action later ih =>
    obtain ⟨hreply, hnext⟩ := h.perform action
    obtain ⟨hreplies, hafter⟩ := ih hnext
    exact ⟨congrArg₂ List.cons hreply hreplies, hafter⟩

end Shows

/-- A key stands for its coordinate, whatever is done to an index: it answers as if states were
filed by coordinate, and nothing is ever filed under a key that is no coordinate's. -/
theorem key_stands_for_coordinate (actions : List Action) (c c' : Coordinate) :
    c.key.coordinate = .ok c ∧ (c = c' ↔ c.key = c'.key) ∧
    replies perform .empty actions = replies Layout.perform .empty actions ∧
    (after perform .empty actions).at? c = after Layout.perform .empty actions c ∧
    (after perform .empty actions).get? c.key = after Layout.perform .empty actions c ∧
    ∀ key n, (after perform .empty actions).get? key = some n →
      ∃ own, key.coordinate = .ok own ∧ own.key = key ∧
        after Layout.perform .empty actions own = some n := by
  obtain ⟨hreplies, hshows⟩ := shows_empty.run actions
  refine ⟨c.coordinate_key, Coordinate.key_injective.eq_iff.symm, hreplies, hshows.at?_eq c,
    hshows.at?_eq c, fun key n hfiled => ?_⟩
  rw [hshows key, Layout.under, Option.bind_eq_some_iff] at hfiled
  obtain ⟨own, hnamed, hown⟩ := hfiled
  obtain rfl := StateKey.named?_eq_some_iff.mp hnamed
  exact ⟨own, own.coordinate_key, rfl, hown⟩

end StateIndex

end AutomatonSketch
