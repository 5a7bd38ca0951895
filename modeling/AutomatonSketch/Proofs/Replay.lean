import AutomatonSketch.History.Basic
import AutomatonSketch.Proofs.Makes

/-! The log of a diagram. Replayed from the empty diagram it leads to what is drawn, bends apart;
what was taken back leads on from there. -/

namespace AutomatonSketch

namespace Diagram

/-- The diagram as it would be if no transition had been bent. -/
def unbent (d : Diagram) : Diagram := { d with edges := d.edges.map Edge.unbent }

def withEdges (d : Diagram) (edges : List Edge) : Diagram := { d with edges }

theorem takeStart_withEdges (d : Diagram) (edges : List Edge) :
    (d.withEdges edges).takeStart.2 = d.takeStart.2.withEdges edges := by
  cases hs : d.start <;> simp [takeStart, withEdges, hs, modifyNode]

theorem pushEdge_withEdges (d : Diagram) (edges : List Edge) {e e' : Edge}
    (he : e'.unbent = e.unbent) :
    (d.withEdges edges).pushEdge e' = (d.pushEdge e).withEdges (edges ++ [e']) := by
  obtain ⟨hstart, hfinish, hlabel⟩ := Edge.ends_of_unbent_eq he
  simp [pushEdge, withEdges, modifyNode, Edge.sourceKey, Edge.destinationKey, hstart, hfinish,
    hlabel]

theorem unbent_eq_iff {d d' : Diagram} : d.unbent = d'.unbent ↔
    ∃ edges, d' = d.withEdges edges ∧ d.edges.map Edge.unbent = edges.map Edge.unbent := by
  constructor
  · intro h
    simp only [unbent, Diagram.mk.injEq] at h
    obtain ⟨hindex, horder, hedges, hstart⟩ := h
    refine ⟨d'.edges, ?_, hedges⟩
    rw [withEdges, hindex, horder, hstart]
  · rintro ⟨edges, rfl, h⟩
    simp [unbent, withEdges, h]

theorem map_listing_of_unbent_eq {edges edges' : List Edge}
    (h : edges.map Edge.unbent = edges'.map Edge.unbent) :
    edges.map Edge.listing = edges'.map Edge.listing := by
  have hflat (es : List Edge) : (es.map Edge.unbent).map Edge.listing = es.map Edge.listing := by
    rw [List.map_map]
    rfl
  rw [← hflat edges, h, hflat]

theorem Consistent.of_unbent_eq {d d' : Diagram} (hd : d.Consistent) (h : d.unbent = d'.unbent) :
    d'.Consistent := by
  obtain ⟨edges, rfl, hedges⟩ := unbent_eq_iff.mp h
  have hsame := map_listing_of_unbent_eq hedges.symm
  refine (hd.framed.withEdges_of_listing hsame).consistent fun key n label hn => ?_
  show _ = if drawn edges key label = [] then none else some (drawn edges key label)
  rw [drawn_eq_of_listing hsame]
  exact hd.destinations?_eq key n label hn

theorem unbent_setEdgeControl? {d d' : Diagram} {i : Nat} {control : Coordinate}
    (h : d.setEdgeControl? i control = some d') : d.unbent = d'.unbent := by
  unfold setEdgeControl? at h
  split at h
  · exact absurd h (by simp)
  · rename_i e he
    obtain rfl := Option.some.inj h
    have hset : (d.edges.set i { e with curve := { e.curve with control1 := control } }).map
        Edge.unbent = d.edges.map Edge.unbent := by
      rw [List.map_set]
      apply List.ext_getElem?
      intro j
      by_cases hj : i = j
      · subst hj
        have hi := (List.getElem?_eq_some_iff.mp he).1
        rw [List.getElem?_set_self (by simpa using hi), List.getElem?_map, he]
        rfl
      · rw [List.getElem?_set_ne hj]
    simp only [unbent, hset]

end Diagram

namespace Edit

/-- The transition that an edit drew. -/
def edge? : Edit → Option Edge
  | completeEdge e => some e
  | _ => none

namespace Makes

variable {edit : Edit} {d d' : Diagram}

theorem edges_eq (h : edit.Makes d d') : d'.edges = d.edges ++ edit.edge?.toList := by
  cases h with
  | placeNode => exact (List.append_nil _).symm
  | placeStart => exact d.takeStart_edges.trans (List.append_nil _).symm
  | completeEdge => rfl
  | markFinal => exact (List.append_nil _).symm

/-- An edit fits whatever differs in its bends only, and leads to what does so again. -/
theorem transport (h : edit.Makes d d') {d₁ : Diagram} (hd : d.unbent = d₁.unbent) :
    ∃ d₁', edit.Makes d₁ d₁' ∧ d'.unbent = d₁'.unbent := by
  obtain ⟨edges, rfl, hedges⟩ := Diagram.unbent_eq_iff.mp hd
  cases h with
  | @placeNode _ n hfresh hbare hplain =>
    exact ⟨_, .placeNode hfresh hbare hplain, Diagram.unbent_eq_iff.mpr ⟨edges, rfl, hedges⟩⟩
  | @placeStart _ n hfresh hbare hstart =>
    refine ⟨_, .placeStart (d := d.withEdges edges) hfresh hbare hstart, ?_⟩
    rw [Diagram.takeStart_withEdges]
    refine Diagram.unbent_eq_iff.mpr ⟨edges, rfl, ?_⟩
    rwa [← d.takeStart_edges] at hedges
  | @completeEdge _ e hsource hdestination =>
    refine ⟨_, .completeEdge hsource hdestination, ?_⟩
    rw [Diagram.pushEdge_withEdges d edges rfl]
    refine Diagram.unbent_eq_iff.mpr ⟨edges ++ [e], rfl, ?_⟩
    show (d.edges ++ [e]).map Edge.unbent = _
    rw [List.map_append, List.map_append, hedges]
  | @markFinal _ key n hn hopen =>
    exact ⟨_, .markFinal hn hopen, Diagram.unbent_eq_iff.mpr ⟨edges, rfl, hedges⟩⟩

/-- What differs in its bends only from where an edit led was led to by the edit, its own bend
apart. -/
theorem transport_back (h : edit.Makes d d') {d₁' : Diagram} (hd : d'.unbent = d₁'.unbent) :
    ∃ (edit' : Edit) (d₁ : Diagram),
      edit'.Makes d₁ d₁' ∧ d.unbent = d₁.unbent ∧ edit.unbent = edit'.unbent := by
  obtain ⟨edges, rfl, hedges⟩ := Diagram.unbent_eq_iff.mp hd
  cases h with
  | @placeNode _ n hfresh hbare hplain =>
    exact ⟨_, d.withEdges edges, .placeNode hfresh hbare hplain,
      Diagram.unbent_eq_iff.mpr ⟨edges, rfl, hedges⟩, rfl⟩
  | @placeStart _ n hfresh hbare hstart =>
    refine ⟨.placeNode n d.start, d.withEdges edges, ?_, ?_, rfl⟩
    · have hmakes := Makes.placeStart (d := d.withEdges edges) hfresh hbare hstart
      rwa [Diagram.takeStart_withEdges] at hmakes
    · refine Diagram.unbent_eq_iff.mpr ⟨edges, rfl, ?_⟩
      rwa [← d.takeStart_edges]
  | @completeEdge _ e hsource hdestination =>
    have hsplit : edges.map Edge.unbent = d.edges.map Edge.unbent ++ [e.unbent] := by
      rw [← hedges]
      show (d.edges ++ [e]).map Edge.unbent = _
      rw [List.map_append, List.map_singleton]
    obtain ⟨es, last, rfl, hes, hlast⟩ := List.map_eq_append_iff.mp hsplit
    obtain ⟨e', rfl, he⟩ := List.map_eq_singleton_iff.mp hlast
    obtain ⟨hstart, hfinish, hlabel⟩ := Edge.ends_of_unbent_eq he
    refine ⟨.completeEdge e', d.withEdges es, ?_, Diagram.unbent_eq_iff.mpr ⟨es, rfl, hes.symm⟩,
      congrArg Edit.completeEdge he.symm⟩
    rw [← Diagram.pushEdge_withEdges d es he]
    refine .completeEdge ?_ ?_
    · rwa [Edge.sourceKey, hstart]
    · rwa [Edge.destinationKey, hfinish]
  | @markFinal _ key n hn hopen =>
    exact ⟨_, d.withEdges edges, .markFinal hn hopen,
      Diagram.unbent_eq_iff.mpr ⟨edges, rfl, hedges⟩, rfl⟩

end Makes

end Edit

/-- Edits that fit one after another and lead from one diagram to another. -/
inductive Replays : List Edit → Diagram → Diagram → Prop
  | nil (d : Diagram) : Replays [] d d
  | cons {edit : Edit} {edits : List Edit} {d d₁ d' : Diagram} (hfirst : edit.Makes d d₁)
      (hrest : Replays edits d₁ d') : Replays (edit :: edits) d d'

namespace Replays

variable {edits : List Edit} {d d' : Diagram}

theorem append {more : List Edit} {d₁ : Diagram} (h : Replays edits d d')
    (hmore : Replays more d' d₁) : Replays (edits ++ more) d d₁ := by
  induction h with
  | nil d => exact hmore
  | cons hfirst _ ih => exact .cons hfirst (ih hmore)

theorem of_append {more : List Edit} (h : Replays (edits ++ more) d d') :
    ∃ d₁, Replays edits d d₁ ∧ Replays more d₁ d' := by
  induction edits generalizing d with
  | nil => exact ⟨d, .nil d, h⟩
  | cons edit edits ih =>
    cases h with
    | cons hfirst hrest =>
      obtain ⟨d₁, hedits, hmore⟩ := ih hrest
      exact ⟨d₁, .cons hfirst hedits, hmore⟩

theorem singleton {edit : Edit} (h : edit.Makes d d') : Replays [edit] d d' := .cons h (.nil d')

theorem of_singleton {edit : Edit} (h : Replays [edit] d d') : edit.Makes d d' := by
  cases h with
  | cons hfirst hrest => cases hrest; exact hfirst

theorem consistent (hd : d.Consistent) (h : Replays edits d d') : d'.Consistent := by
  induction h with
  | nil d => exact hd
  | cons hfirst _ ih => exact ih (hfirst.consistent hd)

theorem edges_eq (h : Replays edits d d') : d'.edges = d.edges ++ edits.filterMap Edit.edge? := by
  induction h with
  | nil d => simp
  | @cons edit edits d d₁ d' hfirst _ ih =>
    rw [ih, hfirst.edges_eq, List.append_assoc]
    cases edit <;> rfl

theorem transport (h : Replays edits d d') {d₁ : Diagram} (hd : d.unbent = d₁.unbent) :
    ∃ d₁', Replays edits d₁ d₁' := by
  induction h generalizing d₁ with
  | nil d => exact ⟨d₁, .nil d₁⟩
  | cons hfirst _ ih =>
    obtain ⟨d₂, hmakes, hd₂⟩ := hfirst.transport hd
    obtain ⟨d₁', hrest⟩ := ih hd₂
    exact ⟨d₁', .cons hmakes hrest⟩

end Replays

namespace History

/-- The edits in force explain the diagram, bends apart, and those taken back can follow. -/
structure Fits (h : History) (d : Diagram) : Prop where
  explained : ∃ d₁, Replays h.applied .empty d₁ ∧ d₁.unbent = d.unbent
  replayable : ∃ d₁, Replays h.redoStack d d₁

namespace Fits

variable {h : History} {d d' : Diagram}

theorem empty : History.empty.Fits .empty :=
  ⟨⟨.empty, .nil _, rfl⟩, ⟨.empty, .nil _⟩⟩

theorem consistent (hd : h.Fits d) : d.Consistent := by
  obtain ⟨d₁, hreplay, heq⟩ := hd.explained
  exact (hreplay.consistent .empty).of_unbent_eq heq

/-- Bending a transition is not recorded and need not be. -/
theorem bend (hd : h.Fits d) (heq : d.unbent = d'.unbent) : h.Fits d' := by
  obtain ⟨d₁, hreplay, hd₁⟩ := hd.explained
  obtain ⟨d₂, hredo⟩ := hd.replayable
  exact ⟨⟨d₁, hreplay, hd₁.trans heq⟩, hredo.transport heq⟩

theorem explained_snoc {older : List Edit} {edit : Edit}
    (hd : ∃ d₁, Replays older.reverse .empty d₁ ∧ d₁.unbent = d.unbent)
    (hmakes : edit.Makes d d') :
    ∃ d₁, Replays (edit :: older).reverse .empty d₁ ∧ d₁.unbent = d'.unbent := by
  obtain ⟨d₁, hreplay, heq⟩ := hd
  obtain ⟨d₁', hmakes', heq'⟩ := hmakes.transport heq.symm
  rw [List.reverse_cons]
  exact ⟨d₁', hreplay.append (.singleton hmakes'), heq'.symm⟩

theorem record {edit : Edit} (hd : h.Fits d) (hmakes : edit.Makes d d') :
    (h.record edit).Fits d' :=
  ⟨explained_snoc hd.explained hmakes, ⟨d', .nil d'⟩⟩

/-- There is always something to take the newest edit back from, and it leaves what the edit was
made on. -/
theorem undo {recorded : Edit} {older : List Edit} (hd : h.Fits d)
    (hstack : h.undoStack = recorded :: older) :
    ∃ edit d₀, edit.Makes d₀ d ∧ edit.unbent = recorded.unbent ∧
      h.undo d = (some edit, ⟨older, edit :: h.redoStack⟩, d₀) ∧
      (⟨older, edit :: h.redoStack⟩ : History).Fits d₀ := by
  obtain ⟨d₁, hreplay, heq⟩ := hd.explained
  rw [applied, hstack, List.reverse_cons] at hreplay
  obtain ⟨d₂, holder, hlast⟩ := hreplay.of_append
  obtain ⟨edit, d₀, hmakes, hd₀, hedit⟩ := hlast.of_singleton.transport_back heq
  have hconsistent := (holder.consistent .empty).of_unbent_eq hd₀
  obtain ⟨d₃, hredo⟩ := hd.replayable
  refine ⟨edit, d₀, hmakes, hedit.symm, ?_, ⟨d₂, holder, hd₀⟩, ⟨d₃, .cons hmakes hredo⟩⟩
  simp only [History.undo, hstack, hmakes.revert hconsistent hedit]

/-- There is always room for the edit taken back last. -/
theorem redo {edit : Edit} {later : List Edit} (hd : h.Fits d)
    (hstack : h.redoStack = edit :: later) :
    ∃ d', edit.Makes d d' ∧ h.redo d = (some edit, ⟨edit :: h.undoStack, later⟩, d') ∧
      (⟨edit :: h.undoStack, later⟩ : History).Fits d' := by
  obtain ⟨d₁, hreplay⟩ := hd.replayable
  rw [hstack] at hreplay
  cases hreplay with
  | @cons _ _ _ d' _ hmakes hrest =>
    refine ⟨d', hmakes, ?_, explained_snoc hd.explained hmakes, ⟨d₁, hrest⟩⟩
    simp only [History.redo, hstack, hmakes.reapply]

theorem discardAll (hd : h.Fits d) : h.discardAll.Fits .empty := by
  obtain ⟨d₁, hreplay, _⟩ := hd.explained
  exact ⟨⟨.empty, .nil _, rfl⟩, ⟨d₁, hreplay⟩⟩

end Fits

end History

end AutomatonSketch
