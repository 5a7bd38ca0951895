import AutomatonSketch.Proofs.Consistent
import Mathlib.Data.List.Count

/-! What states list as destinations, counted entry by entry, and how it changes when an entry is
struck. -/

namespace AutomatonSketch

/-- An entry in the list of a state: a destination under a label. -/
structure Listing where
  source : StateKey
  destination : StateKey
  label : String
deriving DecidableEq

theorem Listing.eq_iff {l l' : Listing} :
    l = l' ↔ (l.source = l'.source ∧ l.label = l'.label) ∧ l.destination = l'.destination := by
  cases l
  cases l'
  simp only [Listing.mk.injEq]
  tauto

def Edge.listing (e : Edge) : Listing := ⟨e.sourceKey, e.destinationKey, e.label⟩

/-- What is drawn depends on the entries that go with the transitions. -/
theorem drawn_eq_of_listing {edges edges' : List Edge}
    (h : edges.map Edge.listing = edges'.map Edge.listing) (source : StateKey) (label : String) :
    drawn edges source label = drawn edges' source label := by
  have hentries (es : List Edge) : drawn es source label =
      (((es.map Edge.listing).filter fun l => l.source = source ∧ l.label = label).map
        Listing.destination) := by
    rw [List.filter_map, List.map_map]
    rfl
  rw [hentries, hentries, h]

namespace Node

/-- The state with other destinations for a label; without any the label is not kept. -/
def relist (n : Node) (label : String) (rest : List StateKey) : Node :=
  { n with
    outgoing := if rest.isEmpty then n.outgoing.erase label else n.outgoing.insert label rest }

theorem destinations?_relist (n : Node) (label label' : String) (rest : List StateKey) :
    (n.relist label rest).destinations? label' =
      if label = label' then if rest = [] then none else some rest else n.destinations? label' := by
  cases rest with
  | nil =>
    rw [if_pos rfl]
    exact Table.get?_erase ..
  | cons key rest =>
    rw [if_neg (List.cons_ne_nil _ _)]
    exact Table.get?_insert ..

theorem destinations_relist (n : Node) (label label' : String) (rest : List StateKey) :
    (n.relist label rest).destinations label' =
      if label = label' then rest else n.destinations label' := by
  rw [destinations, destinations?_relist]
  by_cases hl : label = label'
  · by_cases hrest : rest = [] <;> simp [hl, hrest]
  · simp [hl, destinations]

theorem destinations_link (n : Node) (label label' : String) (key : StateKey) :
    (n.link label key).destinations label' =
      if label = label' then n.destinations label ++ [key] else n.destinations label' := by
  rw [destinations, destinations?_link]
  by_cases hl : label = label' <;> simp [hl, destinations]

theorem destinations_of_outgoing {n m : Node} (h : n.outgoing = m.outgoing) (label : String) :
    n.destinations label = m.destinations label := by
  rw [destinations, destinations, destinations?, destinations?, h]

end Node

namespace Diagram

/-- Transitions may be exchanged for others with the same ends and labels. -/
theorem Framed.withEdges_of_listing {d : Diagram} (h : d.Framed) {edges : List Edge}
    (hsame : edges.map Edge.listing = d.edges.map Edge.listing) : { d with edges }.Framed := by
  refine h.withEdges fun e he => ?_
  have hlisting : e.listing ∈ d.edges.map Edge.listing := hsame ▸ List.mem_map_of_mem he
  obtain ⟨e', he', heq⟩ := List.mem_map.mp hlisting
  have hsource : e'.sourceKey = e.sourceKey := congrArg Listing.source heq
  have hdestination : e'.destinationKey = e.destinationKey := congrArg Listing.destination heq
  have hends := h.ends_mem e' he'
  rwa [hsource, hdestination] at hends

theorem count_eraseOne (l : List StateKey) (key key' : StateKey) (newest : Bool) :
    (eraseOne l key newest).count key' = l.count key' - if key = key' then 1 else 0 := by
  cases newest <;> simp [eraseOne, List.count_erase]

theorem unlink_eq_ok_iff {d d' : Diagram} {source destination : StateKey} {label : String}
    {newest : Bool} :
    d.unlink source destination label newest = .ok d' ↔
      ∃ n, d.node? source = some n ∧ destination ∈ n.destinations label ∧
        d' = d.modifyNode source fun m =>
          m.relist label (eraseOne (n.destinations label) destination newest) := by
  unfold unlink
  cases hn : d.node? source with
  | none => simp
  | some n =>
    cases hlisted : n.destinations? label with
    | none =>
      have hnone : n.destinations label = [] := by rw [Node.destinations, hlisted, Option.getD_none]
      simp [hlisted, hnone]
    | some listed =>
      have hsome : n.destinations label = listed := by
        rw [Node.destinations, hlisted, Option.getD_some]
      simp only [Option.bind_some, hlisted]
      by_cases hmem : destination ∈ listed
      · rw [if_pos hmem, Except.ok.injEq]
        constructor
        · rintro rfl
          exact ⟨n, rfl, hsome ▸ hmem, by rw [hsome]; rfl⟩
        · rintro ⟨m, hm, _, rfl⟩
          obtain rfl := Option.some.inj hm
          rw [hsome]
          rfl
      · simp [hsome, hmem]

/-- How often an entry is listed. -/
def listed (d : Diagram) (l : Listing) : Nat :=
  ((d.node? l.source).map fun n => (n.destinations l.label).count l.destination).getD 0

theorem listed_eq {d : Diagram} {l : Listing} {n : Node} (h : d.node? l.source = some n) :
    d.listed l = (n.destinations l.label).count l.destination := by
  rw [listed, h, Option.map_some, Option.getD_some]

theorem listed_of_fresh {d : Diagram} {l : Listing} (h : l.source ∉ d.index.keys) :
    d.listed l = 0 := by
  rw [listed, node?_eq_none_iff.mpr h, Option.map_none, Option.getD_none]

/-- The source of a transition lists the destination under its label. -/
def Lists (d : Diagram) (e : Edge) : Prop :=
  ∃ n, d.node? e.sourceKey = some n ∧ e.destinationKey ∈ n.destinations e.label

theorem lists_iff {d : Diagram} {e : Edge} : d.Lists e ↔ 0 < d.listed e.listing := by
  constructor
  · rintro ⟨n, hn, hmem⟩
    rw [listed_eq (l := e.listing) hn]
    exact List.count_pos_iff.mpr hmem
  · intro hpos
    cases hn : d.node? e.sourceKey with
    | none =>
      have hnone : d.listed e.listing = 0 := listed_of_fresh (node?_eq_none_iff.mp hn)
      omega
    | some n =>
      rw [listed_eq (l := e.listing) hn] at hpos
      exact ⟨n, hn, List.count_pos_iff.mp hpos⟩

theorem listed_modifyNode {d : Diagram} {key : StateKey} {f : Node → Node}
    (hf : ∀ n, (f n).outgoing = n.outgoing) (l : Listing) :
    (d.modifyNode key f).listed l = d.listed l := by
  rw [listed, listed, node?_modifyNode]
  by_cases hk : key = l.source
  · rw [if_pos hk, Option.map_map]
    congr 2
    funext n
    rw [Function.comp_apply, Node.destinations_of_outgoing (hf n)]
  · rw [if_neg hk]

theorem listed_takeStart (d : Diagram) (l : Listing) : d.takeStart.2.listed l = d.listed l := by
  unfold takeStart
  split
  · rfl
  · exact listed_modifyNode (f := fun n => { n with isStart := false }) (fun _ => rfl) l

theorem listed_insertNode {d : Diagram} {n : Node} (hfresh : n.key ∉ d.index.keys)
    (hbare : n.outgoing = .empty) (l : Listing) : (d.insertNode n).listed l = d.listed l := by
  by_cases hk : n.key = l.source
  · have hnew : (d.insertNode n).node? l.source = some n := by
      rw [node?_insertNode, if_pos hk]
    have hnone : n.destinations l.label = [] := by
      rw [Node.destinations, Node.destinations?, hbare, Table.get?_empty, Option.getD_none]
    rw [listed_eq hnew, hnone, listed_of_fresh (hk ▸ hfresh), List.count_nil]
  · rw [listed, listed, node?_insertNode, if_neg hk]

theorem listed_modifyNode_at {d : Diagram} {source : StateKey} {n : Node} {label : String}
    {f : Node → Node} {rest : List StateKey} (hn : d.node? source = some n)
    (hf : ∀ label', (f n).destinations label' =
      if label = label' then rest else n.destinations label') (l : Listing) :
    (d.modifyNode source f).listed l =
      if source = l.source ∧ label = l.label then rest.count l.destination else d.listed l := by
  by_cases hk : source = l.source
  · subst hk
    have hnew : (d.modifyNode l.source f).node? l.source = some (f n) := by
      rw [node?_modifyNode, if_pos rfl, hn, Option.map_some]
    rw [listed_eq hnew, listed_eq hn, hf]
    by_cases hl : label = l.label <;> simp [hl]
  · rw [if_neg fun h => hk h.1, listed, listed, node?_modifyNode, if_neg hk]

theorem listed_pushEdge {d : Diagram} {e : Edge} (hsource : e.sourceKey ∈ d.index.keys)
    (l : Listing) :
    (d.pushEdge e).listed l = d.listed l + if e.listing = l then 1 else 0 := by
  obtain ⟨n, hn⟩ := mem_keys.mp hsource
  have hafter := listed_modifyNode_at (f := fun m => m.link e.label e.destinationKey) hn
    (n.destinations_link e.label · e.destinationKey) l
  show (d.modifyNode e.sourceKey fun m => m.link e.label e.destinationKey).listed l = _
  simp only [hafter, Listing.eq_iff]
  by_cases hplace : e.sourceKey = l.source ∧ e.label = l.label
  · have hbefore : d.listed l = (n.destinations e.label).count l.destination := by
      rw [hplace.2, listed_eq (hplace.1 ▸ hn)]
    rw [if_pos hplace, hbefore, List.count_append, List.count_singleton']
    simp [Edge.listing, hplace, eq_comm]
  · simp [Edge.listing, hplace]

/-- Striking an entry takes one from its count, and from no other. -/
theorem listed_unlink {d d' : Diagram} {struck : Listing} {newest : Bool}
    (h : d.unlink struck.source struck.destination struck.label newest = .ok d') (l : Listing) :
    d'.listed l + (if struck = l then 1 else 0) = d.listed l := by
  obtain ⟨n, hn, hmem, rfl⟩ := unlink_eq_ok_iff.mp h
  have hafter := listed_modifyNode_at (f := fun m => m.relist struck.label
    (eraseOne (n.destinations struck.label) struck.destination newest)) hn
    (n.destinations_relist struck.label · _) l
  simp only [hafter, Listing.eq_iff]
  by_cases hplace : struck.source = l.source ∧ struck.label = l.label
  · have hbefore : d.listed l = (n.destinations struck.label).count l.destination := by
      rw [hplace.2, listed_eq (hplace.1 ▸ hn)]
    rw [if_pos hplace, hbefore, count_eraseOne]
    by_cases hd : struck.destination = l.destination
    · have hpos : 0 < (n.destinations l.label).count l.destination :=
        List.count_pos_iff.mpr (hplace.2 ▸ hd ▸ hmem)
      simp only [hplace, hd, and_self, if_true]
      exact Nat.sub_add_cancel hpos
    · simp [hd]
  · simp [hplace]

end Diagram

end AutomatonSketch
