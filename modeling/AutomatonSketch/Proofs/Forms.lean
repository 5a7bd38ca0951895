import AutomatonSketch.Format.Workspace
import AutomatonSketch.Proofs.Entries
import AutomatonSketch.Proofs.JsonText
import Mathlib.Algebra.Group.Nat.Defs
import Mathlib.Data.List.Forall2

/-! The JSON forms of coordinates, curves, states, transitions, settings, sessions and snapshots
lose nothing: what is written reads back. The entries of a table may be written in any order. -/

namespace AutomatonSketch

namespace Table

variable [DecidableEq κ]

theorem not_mem_of_find_eq_none {k : κ} {l : List (κ × α)} (h : find k l = none) (a : α) :
    (k, a) ∉ l := by
  induction l with
  | nil => exact List.not_mem_nil
  | cons e l ih =>
    rw [find] at h
    split at h
    · exact absurd h (by simp)
    · rename_i hk
      intro hmem
      rcases List.mem_cons.mp hmem with rfl | hmem
      · exact hk rfl
      · exact ih h hmem

variable [Ord κ] [Std.TransOrd κ] [Std.LawfulEqOrd κ]

theorem get?_foldl_insert {l : List (κ × α)} (hnodup : (l.map (·.1)).Nodup) (t : Table κ α)
    (k : κ) : (l.foldl (fun t e => t.insert e.1 e.2) t).get? k = (find k l).or (t.get? k) := by
  induction l generalizing t with
  | nil => simp [find]
  | cons e l ih =>
    obtain ⟨hfresh, hrest⟩ := List.nodup_cons.mp hnodup
    rw [List.foldl_cons, ih hrest, get?_insert, find]
    split
    · rename_i hk
      have hnone : find k l = none := by
        apply find_eq_none
        rintro e' he' rfl
        exact hfresh (List.mem_map.mpr ⟨e', he', hk.symm⟩)
      rw [hnone]
      rfl
    · rfl

/-- The order in which entries come does not count. -/
theorem ofList_of_perm {l : List (κ × α)} {t : Table κ α} (h : l.Perm t.entries) :
    ofList l = t := by
  have hnodup : (l.map (·.1)).Nodup := (h.map _).nodup_iff.mpr t.nodup_keys
  apply ext_get?
  intro k
  rw [ofList, get?_foldl_insert hnodup, get?_empty, Option.or_none]
  cases hfind : find k l with
  | some a => exact (get?_eq_some_iff.mpr (h.mem_iff.mp (mem_of_find hfind))).symm
  | none =>
    cases hget : t.get? k with
    | none => rfl
    | some a =>
      have hmem : (k, a) ∈ l := h.mem_iff.mpr (get?_eq_some_iff.mp hget)
      exact absurd hmem (not_mem_of_find_eq_none hfind a)

end Table

namespace Json

/-- The ways in which values may be written. -/
abbrev Form (α : Type) := α → Json → Prop

namespace Form

variable {α κ : Type}

def exactly (write : α → Json) : Form α := fun a j => j = write a

def list (form : Form α) : Form (List α) :=
  fun l j => ∃ items, List.Forall₂ form l items ∧ j = .array items

/-- A table as an object. Its entries may come in any order. -/
def table [Ord κ] (name : κ → String) (form : Form α) : Form (Table κ α) :=
  fun t j => ∃ entries members, entries.Perm t.entries ∧
    List.Forall₂ (fun e (m : String × Json) => m.1 = name e.1 ∧ form e.2 m.2) entries members ∧
    j = .object members

theorem list_exactly (write : α → Json) (l : List α) :
    (exactly write).list l (.array (l.map write)) :=
  ⟨_, List.forall₂_map_right_iff.mpr (List.forall₂_same.mpr fun _ _ => rfl), rfl⟩

/-- Whatever way a value is written in, `read` reads it back from its text. -/
def ReadBy (form : Form α) (read : Json → Option α) : Prop :=
  ∀ ⦃a j⦄, form a j → read j.asRead = some a

namespace ReadBy

variable {form : Form α} {read : Json → Option α}

theorem text : (exactly Json.text).ReadBy text? := by
  rintro s j rfl
  rw [asRead_text, text?]

theorem list (h : form.ReadBy read) : form.list.ReadBy (list? read) := by
  rintro l j ⟨items, hall, rfl⟩
  rw [asRead_array, list?]
  induction hall with
  | nil => rfl
  | cons hv hrest ih => simp only [List.map_cons, List.mapM_cons, h hv, ih]; rfl

theorem table [DecidableEq κ] [Ord κ] [Std.TransOrd κ] [Std.LawfulEqOrd κ] {name : κ → String}
    {key : String → κ} (hkey : ∀ k, key (name k) = k) (h : form.ReadBy read) :
    (form.table name).ReadBy (table? key read) := by
  rintro t j ⟨entries, members, hperm, hall, rfl⟩
  have hread : (members.map fun m => (m.1, m.2.asRead)).mapM
      (fun (m : String × Json) => (read m.2).map fun a => (key m.1, a)) = some entries := by
    clear hperm
    induction hall with
    | nil => rfl
    | cons hm hrest ih =>
      obtain ⟨hname, hv⟩ := hm
      simp only [List.map_cons, List.mapM_cons, h hv, hname, hkey, ih]
      rfl
  rw [asRead_object, table?, hread, Option.map_some, Table.ofList_of_perm hperm]

end ReadBy

end Form

theorem option?_of {α : Type} {write : α → Json} {read : Json → Option α} {o : Option α}
    (hnull : read .null = none) (h : ∀ a, o = some a → read (write a).asRead = some a) :
    option? read (ofOption write o).asRead = some o := by
  cases o with
  | none => simp [ofOption, option?]
  | some a =>
    have ha := h a rfl
    rw [ofOption, option?, ha]
    · rfl
    · intro he
      rw [he, hnull] at ha
      exact absurd ha (by simp)

namespace Record

section Members

variable {names : List String} {members others : List (String × Json)}

theorem filter_known (h : members.map (·.1) = names) :
    (members.filter fun m => names.contains m.1) = members := by
  apply List.filter_eq_self.mpr
  intro m hm
  rw [List.contains_iff_mem, ← h]
  exact List.mem_map_of_mem hm

theorem filter_unknown (h : ∀ m ∈ others, m.1 ∉ names) :
    (others.filter fun m => names.contains m.1) = [] := by
  apply List.filter_eq_nil_iff.mpr
  intro m hm
  rw [List.contains_iff_mem]
  exact h m hm

/-- A record all of whose fields are there finds them before and behind other members. -/
theorem ofMembers?_append (h : members.map (·.1) = names) (hnodup : names.Nodup)
    (hother : ∀ m ∈ others, m.1 ∉ names) :
    ofMembers? names (members ++ others) = some ⟨members, true⟩ ∧
      ofMembers? names (others ++ members) = some ⟨members, true⟩ := by
  have hkeys : (members.map (·.1)).Nodup := h ▸ hnodup
  simp only [ofMembers?, List.filter_append, filter_known h, filter_unknown hother,
    List.append_nil, List.nil_append, if_pos hkeys, and_self]

theorem of?_object (h : members.map (·.1) = names) (hnodup : names.Nodup) :
    of? names (.object members) = some ⟨members, true⟩ := by
  have hnone : ∀ m ∈ ([] : List (String × Json)), m.1 ∉ names := by simp
  have hread := (ofMembers?_append h hnodup hnone).1
  rwa [List.append_nil] at hread

end Members

@[simp] theorem find_head (name : String) (v : Json) (fields : List (String × Json))
    (named : Bool) : find ⟨(name, v) :: fields, named⟩ name = some v := if_pos rfl

@[simp] theorem find_tail {name name' : String} (h : name' ≠ name) (v : Json)
    (fields : List (String × Json)) (named : Bool) :
    find ⟨(name', v) :: fields, named⟩ name = find ⟨fields, named⟩ name := if_neg h

end Record

end Json

open Json

theorem AxisValue.readBy : (Form.exactly toJson).ReadBy axis? := by
  rintro a j rfl
  simp [toJson, Number.asRead, axis?]

namespace Coordinate

theorem readBy : (Form.exactly toJson).ReadBy ofJson? := by
  rintro c j rfl
  have hx : axis? c.x.toJson.asRead = some c.x := AxisValue.readBy rfl
  have hy : axis? c.y.toJson.asRead = some c.y := AxisValue.readBy rfl
  rw [toJson, asRead_object, ofJson?, Record.of?_object]
  · simp [Record.required, hx, hy]
  · rfl
  · decide

end Coordinate

theorem StateKey.readBy : (Form.exactly toJson).ReadBy ofJson? := by
  rintro k j rfl
  simp [toJson, ofJson?, text?]

namespace Curve

theorem readBy : (Form.exactly toJson).ReadBy ofJson? := by
  rintro c j rfl
  have hread (p : Coordinate) : Coordinate.ofJson? p.toJson.asRead = some p :=
    Coordinate.readBy rfl
  rw [toJson, asRead_object, ofJson?, Record.of?_object]
  · simp [Record.required, hread]
  · rfl
  · decide

end Curve

namespace Node

/-- A state, with the labels of its transitions in any order. -/
def form : Form Node := fun n j =>
  ∃ outgoing, ((Form.exactly StateKey.toJson).list.table id) n.outgoing outgoing ∧
    j = .object [("position", n.position.toJson), ("states_connected_to", outgoing),
      ("is_start", .bool n.isStart), ("is_final", .bool n.isFinal)]

theorem readBy : form.ReadBy ofJson? := by
  rintro n j ⟨outgoing, houtgoing, rfl⟩
  have hposition : Coordinate.ofJson? n.position.toJson.asRead = some n.position :=
    Coordinate.readBy rfl
  have hlists : table? id (list? StateKey.ofJson?) outgoing.asRead = some n.outgoing :=
    StateKey.readBy.list.table (fun _ => rfl) houtgoing
  rw [asRead_object, ofJson?, Record.of?_object]
  · simp [Record.required, Record.withDefault, hposition, hlists, bool?]
  · rfl
  · decide

end Node

namespace Edge

theorem readBy : (Form.exactly toJson).ReadBy ofJson? := by
  rintro e j rfl
  have hcurve : Curve.ofJson? e.curve.toJson.asRead = some e.curve := Curve.readBy rfl
  rw [toJson, fields, asRead_object, ofJson?, Record.of?_object]
  · simp [Record.required, hcurve, text?]
  · rfl
  · decide

end Edge

theorem AutomatonKind.readBy : (Form.exactly toJson).ReadBy ofJson? := by
  rintro k j rfl
  cases k <;> simp [toJson, ofJson?, choice?, name, ofName?]

namespace WorkspaceOptions

theorem ofRecord?_fields (o : WorkspaceOptions) (named : Bool) :
    ofRecord? ⟨o.fields.map fun m => (m.1, m.2.asRead), named⟩ = some o := by
  have hkind : AutomatonKind.ofJson? o.kind.toJson.asRead = some o.kind := AutomatonKind.readBy rfl
  have halphabet : list? text? (Json.array (o.alphabet.map .text)).asRead = some o.alphabet :=
    Form.ReadBy.text.list (Form.list_exactly _ _)
  simp [ofRecord?, fields, Record.withDefault, hkind, halphabet, bool?,
    text?, -asRead_array]

/-- The settings nest little enough to be kept anywhere in a snapshot. -/
theorem isBufferable_fields (o : WorkspaceOptions) {depth : Nat} (hdepth : depth < nestingLimit)
    {m : String × Json} (hm : m ∈ o.fields) : isBufferable depth m.2.asRead = true := by
  have htexts (l : List String) :
      nestingItems (l.map .text) = 0 ∧ areFinite (l.map .text) = true := by
    induction l with
    | nil => simp [nestingItems, areFinite]
    | cons s l ih => simp [nestingItems, areFinite, nesting, isFinite, ih]
  have halphabet : (Json.array (o.alphabet.map .text)).asRead = .array (o.alphabet.map .text) := by
    simp
  have hlimit : depth ≤ nestingLimit ∧ depth + 1 ≤ nestingLimit := ⟨Nat.le_of_lt hdepth, hdepth⟩
  simp only [fields, List.mem_cons, List.not_mem_nil, or_false] at hm
  rcases hm with rfl | rfl | rfl | rfl | rfl <;>
    simp [isBufferable, nesting, isFinite, AutomatonKind.toJson, htexts, halphabet, hlimit,
      -asRead_array]

end WorkspaceOptions

namespace Session

theorem readBy : (Form.exactly toJson).ReadBy ofJson? := by
  rintro s j rfl
  have hread (o : Option String) : option? text? (ofOption .text o).asRead = some o :=
    option?_of rfl fun a _ => Form.ReadBy.text rfl
  rw [toJson, asRead_object, ofJson?, Record.of?_object]
  · simp [Record.optional, hread]
  · rfl
  · decide

end Session

namespace Snapshot

/-- A snapshot, with the entries of its tables in any order. -/
def form : Form Snapshot := fun s j =>
  ∃ states nodes, (Node.form.table StateKey.text) s.states states ∧ Node.form.list s.nodes nodes ∧
    j = .object
      ([("start_state_index", ofOption (fun n : Nat => .number (.integer n)) s.startIndex),
        ("start_state_position", ofOption StateKey.toJson s.startKey), ("state_positions", states),
        ("list_of_states", nodes),
        ("list_of_regular_automata_connections", .array (s.edges.map Edge.toJson))] ++
        s.options.fields)

/-- An index is a number of 64 bits. -/
def HasIndex (s : Snapshot) : Prop := ∀ i, s.startIndex = some i → i < 2 ^ 64

theorem option?_startIndex (s : Snapshot) :
    option? index? (ofOption (fun n : Nat => .number (.integer n)) s.startIndex).asRead =
      some s.startIndex ↔ s.HasIndex := by
  unfold HasIndex
  cases s.startIndex with
  | none => simp [ofOption, option?]
  | some i =>
    have hbound : (i : Int) < indexBound ↔ i < 2 ^ 64 := by simp only [indexBound]; omega
    have hread : option? index? (.number (.integer i)) =
        if i < 2 ^ 64 then some (some i) else none := by
      simp only [option?, index?, hbound, Int.natCast_nonneg, true_and, Int.toNat_natCast]
      split <;> rfl
    show option? index? (.number (.integer i)) = _ ↔ _
    rw [hread]
    split
    · rename_i hi
      exact iff_of_true rfl fun j hj => Option.some.inj hj ▸ hi
    · rename_i hi
      exact iff_of_false (by simp) fun h => hi (h i rfl)

/-- The settings among the members of a snapshot are told from its own fields by their names. -/
theorem ofJson?_append {own settings : List (String × Json)} {options : WorkspaceOptions}
    (hown : own.map (·.1) = fieldNames)
    (hsettings : settings.map (·.1) = WorkspaceOptions.fieldNames)
    (hoptions : WorkspaceOptions.ofRecord? ⟨settings, true⟩ = some options) {depth : Nat}
    (hkept : ∀ m ∈ settings, isBufferable (depth + 1) m.2 = true) :
    ofJson? depth (.object (own ++ settings)) = do
      let r : Record := ⟨own, true⟩
      let startIndex ← r.withDefault "start_state_index" none (option? index?)
      let startKey ← r.withDefault "start_state_position" none (option? StateKey.ofJson?)
      let states ← r.withDefault "state_positions" .empty (table? StateKey.mk Node.ofJson?)
      let nodes ← r.withDefault "list_of_states" [] (list? Node.ofJson?)
      let edges ← r.withDefault "list_of_regular_automata_connections" [] (list? Edge.ofJson?)
      return ⟨startIndex, startKey, states, nodes, edges, options⟩ := by
  have hdisjoint : ∀ name ∈ fieldNames, name ∉ WorkspaceOptions.fieldNames := by decide
  have hforeign : ∀ m ∈ settings, m.1 ∉ fieldNames := by
    intro m hm hmem
    exact hdisjoint m.1 hmem (hsettings ▸ List.mem_map_of_mem hm)
  have hforeign' : ∀ m ∈ own, m.1 ∉ WorkspaceOptions.fieldNames := by
    intro m hm
    exact hdisjoint m.1 (hown ▸ List.mem_map_of_mem hm)
  have hfields := (Record.ofMembers?_append hown (by decide) hforeign).1
  have hothers := (Record.ofMembers?_append hsettings (by decide) hforeign').2
  have hbuffered : (((own ++ settings).filter fun m => !fieldNames.contains m.1).all fun m =>
      isBufferable (depth + 1) m.2) = true := by
    rw [List.all_eq_true]
    intro m hm
    obtain ⟨hmem, hname⟩ := List.mem_filter.mp hm
    rcases List.mem_append.mp hmem with h | h
    · have hlisted : m.1 ∈ fieldNames := hown ▸ List.mem_map_of_mem h
      simp [hlisted] at hname
    · exact hkept m h
  simp only [ofJson?, guard, if_pos hbuffered, hfields, hothers, Option.bind_some, hoptions]
  rfl

theorem ofJson?_of_form {s : Snapshot} {j : Json} (h : s.form j) {depth : Nat}
    (hdepth : depth + 1 < nestingLimit) : ofJson? depth j.asRead = some s ↔ s.HasIndex := by
  obtain ⟨states, nodes, hstates, hnodes, rfl⟩ := h
  have hkey : option? StateKey.ofJson? (ofOption StateKey.toJson s.startKey).asRead =
      some s.startKey := option?_of rfl fun k _ => StateKey.readBy rfl
  have htable : table? StateKey.mk Node.ofJson? states.asRead = some s.states :=
    Node.readBy.table (fun _ => rfl) hstates
  have hlist : list? Node.ofJson? nodes.asRead = some s.nodes := Node.readBy.list hnodes
  have hedges : list? Edge.ofJson? (Json.array (s.edges.map Edge.toJson)).asRead = some s.edges :=
    Edge.readBy.list (Form.list_exactly _ _)
  have hkept : ∀ m ∈ s.options.fields.map fun m => (m.1, m.2.asRead),
      isBufferable (depth + 1) m.2 = true := by
    intro m hm
    obtain ⟨field, hfield, rfl⟩ := List.mem_map.mp hm
    exact s.options.isBufferable_fields hdepth hfield
  rw [asRead_object, List.map_append,
    ofJson?_append rfl rfl (s.options.ofRecord?_fields true) hkept, ← s.option?_startIndex]
  have hsame (i : Option Nat) : { s with startIndex := i } = s ↔ i = s.startIndex := by
    cases s
    simp
  cases hindex : option? index?
    (ofOption (fun n : Nat => .number (.integer n)) s.startIndex).asRead with
  | none => simp [Record.withDefault, hindex]
  | some i =>
    simpa [Record.withDefault, hindex, hkey, htable, hlist, hedges,
      -asRead_array] using hsame i

theorem form_toJson (s : Snapshot) : s.form s.toJson := by
  have houtgoing (n : Node) :
      ((Form.exactly StateKey.toJson).list.table id) n.outgoing (Node.outgoingToJson n.outgoing) :=
    ⟨n.outgoing.entries, _, .refl _, List.forall₂_map_right_iff.mpr
      (List.forall₂_same.mpr fun _ _ => ⟨rfl, Form.list_exactly _ _⟩), rfl⟩
  have hnode (n : Node) : n.form n.toJson := ⟨_, houtgoing n, rfl⟩
  refine ⟨_, _, ⟨s.states.entries, _, .refl _, ?_, rfl⟩, ⟨_, ?_, rfl⟩, rfl⟩
  · exact List.forall₂_map_right_iff.mpr (List.forall₂_same.mpr fun _ _ => ⟨rfl, hnode _⟩)
  · exact List.forall₂_map_right_iff.mpr (List.forall₂_same.mpr fun _ _ => hnode _)

theorem ofText_of_form {s : Snapshot} {j : Json} (h : s.form j) :
    ofText j.toText = .ok s ↔ s.HasIndex := by
  have hread : ofJson? 0 j.asRead = some s ↔ s.HasIndex := ofJson?_of_form h (by decide)
  rw [← hread, ofText, ofText?_toText, Option.bind_some]
  cases ofJson? 0 j.asRead <;> simp

/-- A snapshot reads back from its text, in whichever order the entries of its tables were written.
The index of the start is a number of 64 bits; one that is not could not be read. -/
theorem text_lossless (s : Snapshot) : s.form s.toJson ∧
    ∀ j, s.form j → (ofText j.toText = .ok s ↔ ∀ i, s.startIndex = some i → i < 2 ^ 64) :=
  ⟨s.form_toJson, fun _ => ofText_of_form⟩

end Snapshot

end AutomatonSketch
