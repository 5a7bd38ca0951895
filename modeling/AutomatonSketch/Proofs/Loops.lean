import AutomatonSketch.Proofs.Consistent

/-! Loops drawn at a state. Both control points are pushed out to the left, one up and one down, and
stop at the ends of the range. At the two corners on the left one of them has nowhere to go. -/

namespace AutomatonSketch

namespace AxisValue

def least : AxisValue := ⟨-2147483648, by decide, by decide⟩

def greatest : AxisValue := ⟨2147483647, by decide, by decide⟩

theorem val_least : least.val = -2147483648 := rfl

theorem val_greatest : greatest.val = 2147483647 := rfl

section Shift

variable {a b c : AxisValue}

theorem val_shift (a b : AxisValue) :
    (a.shift b).val = max (-2147483648) (min (a.val + b.val) 2147483647) := rfl

theorem val_inj : a = b ↔ a.val = b.val := ⟨congrArg val, ext_val⟩

theorem shift_eq_self_of_neg (hb : b.val < 0) : a.shift b = a ↔ a = least := by
  have hlow := a.least_le
  have hhigh := a.le_greatest
  rw [val_inj, val_inj, val_shift, val_least]
  omega

theorem shift_eq_self_of_pos (hb : 0 < b.val) : a.shift b = a ↔ a = greatest := by
  have hlow := a.least_le
  have hhigh := a.le_greatest
  rw [val_inj, val_inj, val_shift, val_greatest]
  omega

theorem shift_ne_shift (hb : b.val < 0) (hc : 0 < c.val) : a.shift c ≠ a.shift b := by
  have hlow := a.least_le
  have hhigh := a.le_greatest
  rw [Ne, val_inj, val_shift, val_shift]
  omega

end Shift

end AxisValue

theorem Coordinate.offset_eq_self_iff {c : Coordinate} {dx dy : AxisValue} :
    c.offset dx dy = c ↔ c.x.shift dx = c.x ∧ c.y.shift dy = c.y := by
  cases c
  simp [offset]

/-- Both control points stand off the start, and not in one place. -/
structure Curve.Opens (curve : Curve) : Prop where
  control1_ne : curve.control1 ≠ curve.start
  control2_ne : curve.control2 ≠ curve.start
  apart : curve.control1 ≠ curve.control2

namespace Diagram

/-- Begins a transition at a state and completes it there. -/
def drawLoop (d : Diagram) (c : Coordinate) (label : String) : Except EditError (Edge × Diagram) :=
  (d.beginEdge c label).bind fun pending => d.completeEdge pending c

def loopAt (c : Coordinate) (label : String) : Edge :=
  ⟨⟨c, c.offset loopBack loopOffset, c.offset loopBack loopBack, c⟩, label⟩

section Loops

variable {d : Diagram} {key : StateKey} {n : Node}

theorem drawLoop_eq (h : d.Consistent) (hn : d.node? key = some n) (label : String) :
    d.drawLoop n.position label =
      .ok (loopAt n.position label, d.pushEdge (loopAt n.position label)) := by
  have hkey : n.position.key = key := h.key_eq key n hn
  have hat : d.nodeAt? n.position = some n := by
    rw [← hkey] at hn
    exact hn
  have hroute : routed (.degenerate n.position) n.position = (loopAt n.position label).curve :=
    if_pos rfl
  have hstart : (Edge.begin n.position label).curve.start = n.position := rfl
  simp only [drawLoop, beginEdge, hat, Except.bind, completeEdge, hstart]
  rw [Edge.begin, hroute]
  rfl

theorem control1_loopAt_eq_iff {c : Coordinate} {label : String} :
    (loopAt c label).curve.control1 = c ↔ c = ⟨.least, .greatest⟩ := by
  have hback : loopBack.val < 0 := by decide
  have hoffset : 0 < loopOffset.val := by decide
  show c.offset loopBack loopOffset = c ↔ _
  rw [Coordinate.offset_eq_self_iff, AxisValue.shift_eq_self_of_neg hback,
    AxisValue.shift_eq_self_of_pos hoffset]
  cases c
  simp

theorem control2_loopAt_eq_iff {c : Coordinate} {label : String} :
    (loopAt c label).curve.control2 = c ↔ c = ⟨.least, .least⟩ := by
  have hback : loopBack.val < 0 := by decide
  show c.offset loopBack loopBack = c ↔ _
  rw [Coordinate.offset_eq_self_iff, AxisValue.shift_eq_self_of_neg hback,
    AxisValue.shift_eq_self_of_neg hback]
  cases c
  simp

theorem controls_loopAt_ne (c : Coordinate) (label : String) :
    (loopAt c label).curve.control1 ≠ (loopAt c label).curve.control2 := by
  intro heq
  have hy : c.y.shift loopOffset = c.y.shift loopBack := congrArg Coordinate.y heq
  exact AxisValue.shift_ne_shift (by decide) (by decide) hy

/-- A loop is always drawn, from its state and back to it, and its control points are never in one
place. Each of them stands off the state but for one corner of the plane. -/
theorem drawLoop_opens (h : d.Consistent) (hn : d.node? key = some n) (label : String) :
    ∃ e, d.drawLoop n.position label = .ok (e, d.pushEdge e) ∧ e.label = label ∧
      e.curve.start = n.position ∧ e.curve.finish = n.position ∧
      e.curve.control1 ≠ e.curve.control2 ∧
      (e.curve.control1 = n.position ↔ n.position = ⟨.least, .greatest⟩) ∧
      (e.curve.control2 = n.position ↔ n.position = ⟨.least, .least⟩) ∧
      (e.curve.Opens ↔ n.position ≠ ⟨.least, .greatest⟩ ∧ n.position ≠ ⟨.least, .least⟩) := by
  refine ⟨loopAt n.position label, drawLoop_eq h hn label, rfl, rfl, rfl,
    controls_loopAt_ne n.position label, control1_loopAt_eq_iff, control2_loopAt_eq_iff, ?_⟩
  constructor
  · intro hopens
    exact ⟨mt control1_loopAt_eq_iff.mpr hopens.control1_ne,
      mt control2_loopAt_eq_iff.mpr hopens.control2_ne⟩
  · rintro ⟨hfirst, hsecond⟩
    exact ⟨mt control1_loopAt_eq_iff.mp hfirst, mt control2_loopAt_eq_iff.mp hsecond,
      controls_loopAt_ne n.position label⟩

def alone (c : Coordinate) : Diagram := empty.insertNode (.place c false)

theorem alone_consistent (c : Coordinate) : (alone c).Consistent :=
  Consistent.empty.insertNode List.not_mem_nil rfl nofun

theorem node?_alone (c : Coordinate) : (alone c).node? c.key = some (.place c false) := by
  rw [alone, node?_insertNode]
  exact if_pos rfl

/-- At the left end of the range the loop closes up to a line, but is still there. -/
theorem drawLoop_opens_leftEnd :
    let c : Coordinate := ⟨.least, .clamp 0⟩
    (alone c).Consistent ∧ (alone c).node? c.key = some (.place c false) ∧
      ∃ e, (alone c).drawLoop c "a" = .ok (e, (alone c).pushEdge e) ∧ e.curve.start = c ∧
        e.curve.Opens := by
  intro c
  have h : (alone c).Consistent := alone_consistent c
  have hn : (alone c).node? c.key = some (.place c false) := node?_alone c
  obtain ⟨e, hdrawn, _, hstart, _, _, _, _, hopens⟩ := drawLoop_opens h hn "a"
  exact ⟨h, hn, e, hdrawn, hstart, hopens.mpr (by decide)⟩

/-- In the corner the first control point stays at the state. -/
theorem not_opens_corner :
    let c : Coordinate := ⟨.least, .greatest⟩
    (alone c).Consistent ∧ (alone c).node? c.key = some (.place c false) ∧
      ∃ e, (alone c).drawLoop c "a" = .ok (e, (alone c).pushEdge e) ∧ e.curve.control1 = c ∧
        ¬ e.curve.Opens := by
  intro c
  have h : (alone c).Consistent := alone_consistent c
  have hn : (alone c).node? c.key = some (.place c false) := node?_alone c
  have hstays : (loopAt c "a").curve.control1 = c := control1_loopAt_eq_iff.mpr rfl
  exact ⟨h, hn, loopAt c "a", drawLoop_eq h hn "a", hstays, fun hopens => hopens.control1_ne hstays⟩

end Loops

end Diagram

end AutomatonSketch
