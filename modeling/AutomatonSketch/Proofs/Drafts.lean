import AutomatonSketch.Proofs.Listings
import AutomatonSketch.Proofs.Replay
import AutomatonSketch.Proofs.Verify

/-! Diagrams drawn operation by operation. What was drawn is what is listed and what was struck; all
else agrees, whatever is done, and so does this as long as nothing is struck. -/

namespace AutomatonSketch

namespace Diagram

/-- States in order are the states filed; transitions end at states, and are listed where they
start; a state flagged as the start is the one named so. -/
structure Agrees (d : Diagram) : Prop where
  mem_order : ∀ key, key ∈ d.order ↔ key ∈ d.index.keys
  ends_mem : ∀ e ∈ d.edges, e.sourceKey ∈ d.index.keys ∧ e.destinationKey ∈ d.index.keys
  lists : ∀ e ∈ d.edges, d.Lists e
  start_of_isStart : ∀ key n, d.node? key = some n → n.isStart = true → d.start = some key
  isStart_of_start : ∀ key, d.start = some key → ∃ n, d.node? key = some n ∧ n.isStart = true

theorem Framed.agrees_iff {d : Diagram} (h : d.Framed) : d.Agrees ↔ ∀ e ∈ d.edges, d.Lists e := by
  constructor
  · exact Agrees.lists
  · intro hlists
    constructor
    case mem_order => exact h.mem_order
    case ends_mem => exact h.ends_mem
    case lists => exact hlists
    case start_of_isStart => exact fun key n hn hs => (h.isStart_iff key n hn).mp hs
    case isStart_of_start =>
      intro key hs
      obtain ⟨n, hn⟩ := mem_keys.mp (h.start_mem key hs)
      exact ⟨n, hn, (h.isStart_iff key n hn).mpr hs⟩

end Diagram

namespace Edit.Makes

variable {edit : Edit} {d d' : Diagram}

theorem listed_eq (h : edit.Makes d d') (l : Listing) :
    d'.listed l = d.listed l + (edit.edge?.toList.map Edge.listing).count l := by
  cases h with
  | placeNode hfresh hbare => exact Diagram.listed_insertNode hfresh hbare l
  | placeStart hfresh hbare =>
    rw [Diagram.listed_insertNode (by simpa using hfresh) hbare, Diagram.listed_takeStart]
    rfl
  | @completeEdge _ e hsource =>
    rw [Diagram.listed_pushEdge hsource]
    simp [edge?, List.count_singleton']
  | markFinal => exact Diagram.listed_modifyNode (by simp) l

end Edit.Makes

/-- A diagram in the making, and the entries struck from it since it was cleared last. -/
structure Draft where
  diagram : Diagram
  struck : List Listing

namespace Draft

def empty : Draft := ⟨.empty, []⟩

inductive Operation where
  | addNode (position : Coordinate) (isStart : Bool)
  | markFinal (position : Coordinate)
  | beginEdge (start : Coordinate) (label : String)
  | completeEdge (pending : Edge) (finish : Coordinate)
  | strike (l : Listing)
  | setEdgeControl (i : Nat) (control : Coordinate)
  | clearAll
deriving DecidableEq

/-- An operation that is refused changes nothing, and beginning a transition adds nothing yet. -/
def perform (s : Draft) : Operation → Draft
  | .addNode position isStart =>
    match s.diagram.addNode position isStart with
    | .ok (_, diagram) => { s with diagram }
    | .error _ => s
  | .markFinal position =>
    match s.diagram.markFinal position with
    | .ok (_, diagram) => { s with diagram }
    | .error _ => s
  | .beginEdge _ _ => s
  | .completeEdge pending finish =>
    match s.diagram.completeEdge pending finish with
    | .ok (_, diagram) => { s with diagram }
    | .error _ => s
  | .strike l =>
    match s.diagram.unlink l.source l.destination l.label false with
    | .ok diagram => ⟨diagram, l :: s.struck⟩
    | .error _ => s
  | .setEdgeControl i control =>
    match s.diagram.setEdgeControl? i control with
    | some diagram => { s with diagram }
    | none => s
  | .clearAll => empty

def after (operations : List Operation) : Draft := operations.foldl perform empty

/-- Every entry that was drawn is still listed or has been struck. -/
structure Balanced (s : Draft) : Prop where
  framed : s.diagram.Framed
  balance : ∀ l, s.diagram.listed l + s.struck.count l =
    (s.diagram.edges.map Edge.listing).count l

namespace Balanced

variable {s : Draft}

theorem empty : Draft.empty.Balanced := ⟨Diagram.Framed.empty, fun _ => rfl⟩

theorem make (h : s.Balanced) {edit : Edit} {diagram : Diagram}
    (hmakes : edit.Makes s.diagram diagram) : { s with diagram }.Balanced := by
  refine ⟨hmakes.framed h.framed, fun l => ?_⟩
  have hbalance := h.balance l
  show diagram.listed l + s.struck.count l = (diagram.edges.map Edge.listing).count l
  rw [hmakes.listed_eq, hmakes.edges_eq, List.map_append, List.count_append]
  omega

theorem strike (h : s.Balanced) {l : Listing} {diagram : Diagram}
    (hstruck : s.diagram.unlink l.source l.destination l.label false = .ok diagram) :
    Balanced ⟨diagram, l :: s.struck⟩ := by
  have hlisted := Diagram.listed_unlink hstruck
  obtain ⟨n, _, _, rfl⟩ := Diagram.unlink_eq_ok_iff.mp hstruck
  refine ⟨h.framed.modifyNode l.source fun _ => ⟨rfl, rfl⟩, fun l' => ?_⟩
  have hbalance := h.balance l'
  -- One entry less is listed and one more is struck, of the same key; the edges stay.
  have hone := hlisted l'
  show _ + (l :: s.struck).count l' = (s.diagram.edges.map Edge.listing).count l'
  simp only [List.count_cons, beq_iff_eq]
  omega

theorem bend (h : s.Balanced) {i : Nat} {control : Coordinate} {diagram : Diagram}
    (hbent : s.diagram.setEdgeControl? i control = some diagram) : { s with diagram }.Balanced := by
  obtain ⟨edges, rfl, hedges⟩ := Diagram.unbent_eq_iff.mp (Diagram.unbent_setEdgeControl? hbent)
  have hsame := Diagram.map_listing_of_unbent_eq hedges.symm
  refine ⟨h.framed.withEdges_of_listing hsame, fun l => ?_⟩
  show s.diagram.listed l + s.struck.count l = (edges.map Edge.listing).count l
  rw [hsame, h.balance]

theorem perform (h : s.Balanced) (operation : Operation) : (s.perform operation).Balanced := by
  cases operation with
  | addNode position isStart =>
    cases hadd : s.diagram.addNode position isStart with
    | error => simpa only [Draft.perform, hadd] using h
    | ok added => simpa only [Draft.perform, hadd] using h.make (.of_addNode hadd)
  | markFinal position =>
    cases hmark : s.diagram.markFinal position with
    | error => simpa only [Draft.perform, hmark] using h
    | ok marked => simpa only [Draft.perform, hmark] using h.make (.of_markFinal h.framed hmark)
  | beginEdge => exact h
  | completeEdge pending finish =>
    cases hcomplete : s.diagram.completeEdge pending finish with
    | error => simpa only [Draft.perform, hcomplete] using h
    | ok completed =>
      simpa only [Draft.perform, hcomplete] using h.make (.of_completeEdge h.framed hcomplete)
  | strike l =>
    cases hstruck : s.diagram.unlink l.source l.destination l.label false with
    | error => simpa only [Draft.perform, hstruck] using h
    | ok diagram => simpa only [Draft.perform, hstruck] using h.strike hstruck
  | setEdgeControl i control =>
    cases hbent : s.diagram.setEdgeControl? i control with
    | none => simpa only [Draft.perform, hbent] using h
    | some diagram => simpa only [Draft.perform, hbent] using h.bend hbent
  | clearAll => exact empty

theorem after (operations : List Operation) : (Draft.after operations).Balanced := by
  have hrun {s : Draft} (h : s.Balanced) : (operations.foldl Draft.perform s).Balanced := by
    induction operations generalizing s with
    | nil => exact h
    | cons operation operations ih => exact ih (h.perform operation)
  exact hrun empty

/-- A transition is listed unless every transition with its ends and label has been struck. -/
theorem lists_iff (h : s.Balanced) {e : Edge} : s.diagram.Lists e ↔
    s.struck.count e.listing < (s.diagram.edges.map Edge.listing).count e.listing := by
  have hbalance := h.balance e.listing
  rw [Diagram.lists_iff]
  omega

end Balanced

theorem struck_perform {s : Draft} {operation : Operation} (h : ∀ l, operation ≠ .strike l)
    (hnone : s.struck = []) : (s.perform operation).struck = [] := by
  cases operation with
  | strike l => exact absurd rfl (h l)
  | clearAll => rfl
  | beginEdge => exact hnone
  | addNode | markFinal | completeEdge | setEdgeControl =>
    simp only [perform]
    split <;> exact hnone

theorem struck_after {operations : List Operation} (h : ∀ l, .strike l ∉ operations) :
    (after operations).struck = [] := by
  have hrun {s : Draft} (hnone : s.struck = []) : (operations.foldl perform s).struck = [] := by
    induction operations generalizing s with
    | nil => exact hnone
    | cons operation operations ih =>
      refine ih (fun l hl => h l (List.mem_cons_of_mem _ hl)) (struck_perform ?_ hnone)
      rintro l rfl
      exact h l List.mem_cons_self
  exact hrun rfl

/-- Whatever is done to a diagram, its states, ends and start agree, and what was drawn is listed or
has been struck. So it is in order exactly if no transition has lost all its entries. -/
theorem agrees_after (operations : List Operation) :
    let s := after operations
    let entries := s.diagram.edges.map Edge.listing
    s.diagram.Framed ∧ (∀ l, s.diagram.listed l + s.struck.count l = entries.count l) ∧
      (s.diagram.Agrees ↔ ∀ e ∈ s.diagram.edges,
        s.struck.count e.listing < entries.count e.listing) ∧
      (s.diagram.verify = .ok () ↔ s.diagram.Agrees) ∧
      ((∀ l, .strike l ∉ operations) → s.diagram.Agrees) := by
  intro s entries
  have h : s.Balanced := Balanced.after operations
  have hagrees : s.diagram.Agrees ↔ ∀ e ∈ s.diagram.edges,
      s.struck.count e.listing < entries.count e.listing := by
    rw [h.framed.agrees_iff]
    exact forall₂_congr fun e _ => h.lists_iff
  refine ⟨h.framed, h.balance, hagrees, ?_, ?_⟩
  · rw [h.framed.verify_eq_ok_iff_lists, h.framed.agrees_iff]
  · intro hnone
    have hstruck : s.struck = [] := struck_after hnone
    rw [hagrees, hstruck]
    intro e he
    exact List.count_pos_iff.mpr (List.mem_map_of_mem he)

/-- Two states, a transition from one to the other, and its entry struck. -/
def strikingOnly : List Operation :=
  [.addNode (.of 0 0) false, .addNode (.of 100 0) false,
    .completeEdge (.begin (.of 0 0) "a") (.of 100 0),
    .strike ⟨(Coordinate.of 0 0).key, (Coordinate.of 100 0).key, "a"⟩]

/-- The transition is still drawn, but its source lists nothing. -/
theorem not_agrees_strikingOnly : ¬ (after strikingOnly).diagram.Agrees := by
  intro h
  have hdrawn : ⟨Diagram.routed (.degenerate (.of 0 0)) (.of 100 0), "a"⟩ ∈
      (after strikingOnly).diagram.edges := by decide +kernel
  have hlisted := Diagram.lists_iff.mp (h.lists _ hdrawn)
  exact absurd hlisted (by decide +kernel)

end Draft

end AutomatonSketch
