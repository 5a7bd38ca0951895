import AutomatonSketch.ParseTree.Layout
import AutomatonSketch.Proofs.Operands

/-! What the layout of a parse tree draws: its tokens in the order of a traversal, and from each
operand's parent a curve to the operand. -/

namespace AutomatonSketch

namespace ParseTree

/-- The side of its parent on which the `i`-th of several operands stands: an only one right below
it, two of them to the left and to the right. -/
def sideOf (count i : Nat) : Float32 := if count = 1 then 0 else if i = 0 then -1 else 1

def seats (t : ParseTree) : List (ParseTree × Float32) :=
  t.children.zipIdx.map fun operand => (operand.1, sideOf t.children.length operand.2)

theorem map_fst_seats (t : ParseTree) : t.seats.map Prod.fst = t.children := by
  rw [seats, List.map_map]
  exact List.zipIdx_map_fst 0 t.children

theorem mem_children_of_mem_seats {t : ParseTree} {seat : ParseTree × Float32}
    (h : seat ∈ t.seats) : seat.1 ∈ t.children :=
  t.map_fst_seats ▸ List.mem_map_of_mem h

end ParseTree

/-- A token as it is met in a traversal: the tree below it, its distance from the root, and the side
of its parent it stands on. -/
structure Visit where
  tree : ParseTree
  depth : Nat
  side : Float32

def Visit.caption (visit : Visit) : String × TokenKind × Nat :=
  (visit.tree.label, visit.tree.kind, visit.depth)

def PlacedToken.caption (token : PlacedToken) : String × TokenKind × Nat :=
  (token.label, token.kind, token.depth)

namespace ParseTree

/-- The traversal in pre-order: a token, then its operands from left to right. -/
def visits (t : ParseTree) (depth : Nat) (side : Float32) : List Visit :=
  ⟨t, depth, side⟩ ::
    t.seats.attach.flatMap fun seat => visits seat.1.1 (depth + 1) seat.1.2
termination_by t.size
decreasing_by exact size_lt_of_mem_children (mem_children_of_mem_seats seat.2)

theorem visits_eq (t : ParseTree) (depth : Nat) (side : Float32) :
    t.visits depth side =
      ⟨t, depth, side⟩ :: t.seats.flatMap fun seat => seat.1.visits (depth + 1) seat.2 := by
  rw [visits, List.flatMap_subtype (g := fun seat => seat.1.visits (depth + 1) seat.2),
    List.unattach_attach]
  exact fun _ _ => rfl

theorem length_visits (t : ParseTree) (depth : Nat) (side : Float32) :
    (t.visits depth side).length = t.size := by
  induction t using ParseTree.induction generalizing depth side with
  | step t ih =>
    have hseats : t.seats.map (fun seat => (seat.1.visits (depth + 1) seat.2).length) =
        t.children.map size := by
      rw [← map_fst_seats, List.map_map]
      exact List.map_congr_left fun seat h => ih seat.1 (mem_children_of_mem_seats h) _ _
    rw [visits_eq, List.length_cons, List.length_flatMap, hseats, size_eq, Nat.add_comm]

end ParseTree

namespace TreeLayout

theorem place_eq (position : Point) (depth : Nat) (t : ParseTree) :
    place position depth t = join t position depth (t.seats.map fun seat =>
      (operandPosition position depth seat.2,
        place (operandPosition position depth seat.2) (depth + 1) seat.1)) := by
  cases t with
  | literal character => simp [place, ParseTree.seats, ParseTree.children]
  | or symbol name left right | concatenation symbol name left right =>
    cases left <;> cases right <;>
      simp [place, placeOperand, ParseTree.seats, ParseTree.children, ParseTree.sideOf]
  | kleene symbol name inner =>
    cases inner <;>
      simp [place, placeOperand, ParseTree.seats, ParseTree.children, ParseTree.sideOf]

def tokenOf (t : ParseTree) (position : Point) (depth : Nat) : PlacedToken :=
  ⟨position, t.label, t.kind, depth⟩

/-- What is laid out for an operand of a token, with the curve to it. -/
def operandLayout (parent : PlacedToken) (seat : ParseTree × Float32) : TreeLayout :=
  let position := operandPosition parent.position parent.depth seat.2
  let operand := place position (parent.depth + 1) seat.1
  ⟨operand.tokens, link parent.position position :: operand.links⟩

section Place

variable (t : ParseTree) (position : Point) (depth : Nat)

theorem tokens_place : (place position depth t).tokens = tokenOf t position depth ::
    t.seats.flatMap fun seat => (operandLayout (tokenOf t position depth) seat).tokens := by
  rw [place_eq]
  exact congrArg (_ :: ·) (List.flatMap_map ..)

theorem links_place : (place position depth t).links =
    t.seats.flatMap fun seat => (operandLayout (tokenOf t position depth) seat).links := by
  rw [place_eq]
  exact List.flatMap_map ..

end Place

theorem map_caption_place (t : ParseTree) (position : Point) (depth : Nat) (side : Float32) :
    (place position depth t).tokens.map PlacedToken.caption =
      (t.visits depth side).map Visit.caption := by
  induction t using ParseTree.induction generalizing position depth side with
  | step t ih =>
    rw [tokens_place, ParseTree.visits_eq, List.map_cons, List.map_cons, List.map_flatMap,
      List.map_flatMap]
    congr 1
    refine List.flatMap_congr fun seat h => ?_
    exact ih seat.1 (ParseTree.mem_children_of_mem_seats h) _ _ _

theorem le_depth_of_mem_place {t : ParseTree} {position : Point} {depth : Nat} {token : PlacedToken}
    (h : token ∈ (place position depth t).tokens) : depth ≤ token.depth := by
  induction t using ParseTree.induction generalizing position depth with
  | step t ih =>
    rw [tokens_place] at h
    rcases List.mem_cons.mp h with rfl | h
    · exact Nat.le_refl _
    · obtain ⟨seat, hseat, htoken⟩ := List.mem_flatMap.mp h
      have hle : depth + 1 ≤ token.depth :=
        ih seat.1 (ParseTree.mem_children_of_mem_seats hseat) htoken
      omega

/-- Of the tokens before one, the newest first, the nearest that stands one level higher. -/
def parentAmong (earlier : List PlacedToken) (depth : Nat) : Option PlacedToken :=
  earlier.find? fun token => token.depth + 1 = depth

theorem parentAmong_append {between earlier : List PlacedToken} {parent : PlacedToken}
    (h : ∀ token ∈ between, parent.depth < token.depth) :
    parentAmong (between ++ parent :: earlier) (parent.depth + 1) = some parent := by
  have hnone : between.find? (fun token => decide (token.depth + 1 = parent.depth + 1)) = none := by
    rw [List.find?_eq_none]
    intro token htoken
    have hlt := h token htoken
    simp
    omega
  rw [parentAmong, List.find?_append, hnone, Option.none_or, List.find?_cons_of_pos (by simp)]

/-- Each token stands on its side of the nearest earlier one that is one level higher, and a curve
leads to it from there. -/
inductive Hangs : List PlacedToken → List Visit → List PlacedToken → List Curve → Prop
  | nil (earlier : List PlacedToken) : Hangs earlier [] [] []
  | cons {earlier tokens : List PlacedToken} {parent token : PlacedToken} {visit : Visit}
      {visits : List Visit} {links : List Curve}
      (hparent : parentAmong earlier token.depth = some parent)
      (hplace : token.position = operandPosition parent.position parent.depth visit.side)
      (hrest : Hangs (token :: earlier) visits tokens links) :
      Hangs earlier (visit :: visits) (token :: tokens)
        (link parent.position token.position :: links)

namespace Hangs

variable {earlier tokens tokens' : List PlacedToken} {visits visits' : List Visit}
  {links links' : List Curve}

theorem append (h : Hangs earlier visits tokens links)
    (h' : Hangs (tokens.reverse ++ earlier) visits' tokens' links') :
    Hangs earlier (visits ++ visits') (tokens ++ tokens') (links ++ links') := by
  induction h with
  | nil earlier => exact h'
  | cons hparent hplace hrest ih =>
    refine .cons hparent hplace (ih ?_)
    simpa using h'

theorem length_links (h : Hangs earlier visits tokens links) : links.length = tokens.length := by
  induction h with
  | nil earlier => rfl
  | cons hparent hplace hrest ih => simp [ih]

theorem exists_parent (h : Hangs earlier visits tokens links) {i : Nat} (hi : i < tokens.length) :
    ∃ token visit parent, tokens[i]? = some token ∧ visits[i]? = some visit ∧
      parentAmong ((tokens.take i).reverse ++ earlier) token.depth = some parent ∧
      links[i]? = some (link parent.position token.position) ∧
      token.position = operandPosition parent.position parent.depth visit.side := by
  induction h generalizing i with
  | nil earlier => exact absurd hi (Nat.not_lt_zero i)
  | @cons earlier tokens parent token visit visits links hparent hplace hrest ih =>
    cases i with
    | zero => exact ⟨token, visit, parent, rfl, rfl, hparent, rfl, hplace⟩
    | succ i =>
      simpa using ih (Nat.lt_of_succ_lt_succ hi)

theorem of_seats {parent : PlacedToken} {seats : List (ParseTree × Float32)}
    (between : List PlacedToken) (hbetween : ∀ token ∈ between, parent.depth < token.depth)
    (h : ∀ seat ∈ seats, ∀ before, parentAmong before (parent.depth + 1) = some parent →
      Hangs before (seat.1.visits (parent.depth + 1) seat.2) (operandLayout parent seat).tokens
        (operandLayout parent seat).links) :
    Hangs (between ++ parent :: earlier)
      (seats.flatMap fun seat => seat.1.visits (parent.depth + 1) seat.2)
      (seats.flatMap fun seat => (operandLayout parent seat).tokens)
      (seats.flatMap fun seat => (operandLayout parent seat).links) := by
  induction seats generalizing between with
  | nil => exact .nil _
  | cons seat seats ih =>
    have hfirst := h seat List.mem_cons_self (between ++ parent :: earlier)
      (parentAmong_append hbetween)
    refine hfirst.append ?_
    -- What the operand lays out stands deeper than its parent, which stays the nearest above it.
    rw [← List.append_assoc]
    refine ih _ ?_ fun seat hseat => h seat (List.mem_cons_of_mem _ hseat)
    intro token htoken
    rcases List.mem_append.mp htoken with htoken | htoken
    · exact le_depth_of_mem_place (List.mem_reverse.mp htoken)
    · exact hbetween token htoken

theorem of_seat {parent : PlacedToken}
    (hparent : parentAmong earlier (parent.depth + 1) = some parent) (seat : ParseTree × Float32) :
    Hangs earlier (seat.1.visits (parent.depth + 1) seat.2) (operandLayout parent seat).tokens
      (operandLayout parent seat).links := by
  obtain ⟨t, side⟩ := seat
  induction t using ParseTree.induction generalizing side parent earlier with
  | step t ih =>
    rw [ParseTree.visits_eq, operandLayout]
    dsimp only
    rw [tokens_place, links_place]
    refine .cons hparent rfl (of_seats [] nofun ?_)
    intro seat hseat before hbefore
    exact ih seat.1 (ParseTree.mem_children_of_mem_seats hseat) hbefore seat.2

theorem place (t : ParseTree) (position : Point) (depth : Nat) (side : Float32) :
    let l := TreeLayout.place position depth t
    Hangs [tokenOf t position depth] (t.visits depth side).tail l.tokens.tail l.links := by
  intro l
  have htokens : l.tokens = _ := tokens_place t position depth
  have hlinks : l.links = _ := links_place t position depth
  rw [ParseTree.visits_eq, htokens, hlinks]
  exact of_seats [] nofun fun seat _ _ hbefore => of_seat hbefore seat

end Hangs

/-- The nearest token before the `i`-th one that stands one level higher. -/
def parent? (l : TreeLayout) (i : Nat) : Option PlacedToken :=
  l.tokens[i]?.bind fun token => parentAmong (l.tokens.take i).reverse token.depth

end TreeLayout

namespace ParseTree

open TreeLayout

/-- The tokens are those of the traversal, and there is a curve to each of them but the root. It
comes from the parent, off which the token stands by the spread at the parent's depth. -/
theorem layout_draws (t : ParseTree) (root : Coordinate) :
    let l := t.layout root
    let visits := t.visits 0 0
    l.tokens.length = t.size ∧ l.links.length = t.size - 1 ∧
      l.tokens.map PlacedToken.caption = visits.map Visit.caption ∧
      l.tokens.head?.map PlacedToken.position = some (.ofCoordinate root) ∧
      ∀ i < t.size - 1, ∃ token visit parent, l.tokens[i + 1]? = some token ∧
        visits[i + 1]? = some visit ∧ l.parent? (i + 1) = some parent ∧
        l.links[i]? = some (link parent.position token.position) ∧
        token.position =
          ⟨parent.position.x + visit.side * spread parent.depth,
            parent.position.y + levelHeight⟩ := by
  intro l visits
  have hcaptions : l.tokens.map PlacedToken.caption = visits.map Visit.caption :=
    map_caption_place t (.ofCoordinate root) 0 0
  have hlength : l.tokens.length = t.size := by
    rw [← List.length_map PlacedToken.caption, hcaptions, List.length_map, length_visits]
  have hhangs : Hangs [tokenOf t (.ofCoordinate root) 0] visits.tail l.tokens.tail l.links :=
    .place t (.ofCoordinate root) 0 0
  have hlinks : l.links.length = t.size - 1 := by
    rw [hhangs.length_links, List.length_tail, hlength]
  have htokens : l.tokens = _ := tokens_place t (.ofCoordinate root) 0
  have hroot : l.tokens = tokenOf t (.ofCoordinate root) 0 :: l.tokens.tail := by
    rw [htokens, List.tail_cons]
  refine ⟨hlength, hlinks, hcaptions, by rw [hroot]; rfl, fun i hi => ?_⟩
  obtain ⟨token, visit, parent, htoken, hvisit, hparent, hlink, hplace⟩ :=
    hhangs.exists_parent (i := i) (by rw [List.length_tail, hlength]; exact hi)
  rw [List.getElem?_tail] at htoken hvisit
  refine ⟨token, visit, parent, htoken, hvisit, ?_, hlink, hplace⟩
  rw [TreeLayout.parent?, htoken, Option.bind_some, hroot, List.take_succ_cons, List.reverse_cons]
  exact hparent

end ParseTree

end AutomatonSketch
