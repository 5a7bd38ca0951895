import AutomatonSketch.Proofs.Listings
import Mathlib.Data.List.Nodup

/-! The check of a diagram finds nothing where all parts agree. -/

namespace AutomatonSketch

theorem forM_eq_ok_iff {α ε : Type} {check : α → Except ε Unit} {l : List α} :
    l.forM check = .ok () ↔ ∀ a ∈ l, check a = .ok () := by
  induction l with
  | nil => exact iff_of_true rfl nofun
  | cons a l ih =>
    rw [List.forall_mem_cons, ← ih]
    cases ha : check a with
    | error e => simp [List.forM, ha, bind, Except.bind]
    | ok u => simp [List.forM, ha, bind, Except.bind]

namespace Diagram

theorem verify_eq_ok_iff {d : Diagram} :
    d.verify = .ok () ↔ d.order.length = d.index.size ∧
      (∀ key ∈ d.order, d.checkListed key = .ok ()) ∧ d.flaggedStarts = d.start.toList ∧
      ∀ e ∈ d.edges, d.checkEdge e = .ok () := by
  rw [← forM_eq_ok_iff, ← forM_eq_ok_iff]
  by_cases hcount : d.order.length = d.index.size
  · cases hlisted : d.order.forM d.checkListed with
    | error defect =>
      simp [verify, hcount, hlisted, bind, Except.bind]
    | ok u =>
      by_cases hstart : d.flaggedStarts = d.start.toList <;>
        simp [verify, checkStart, hcount, hstart, hlisted, bind, Except.bind]
  · simp [verify, hcount, bind, Except.bind, throw, throwThe, MonadExceptOf.throw]

namespace Framed

variable {d : Diagram}

theorem order_length (h : d.Framed) : d.order.length = d.index.size := by
  have hp : d.order.Perm d.index.keys :=
    (List.perm_ext_iff_of_nodup h.order_nodup (Table.nodup_keys _)).mpr h.mem_order
  rw [hp.length_eq, Table.keys, List.length_map, Table.size]

theorem flagged_of_live (h : d.Framed) {keys : List StateKey}
    (hlive : ∀ key ∈ keys, key ∈ d.index.keys) :
    ((keys.filterMap d.node?).filter (·.isStart)).map (·.key) =
      keys.filter fun key => d.start = some key := by
  induction keys with
  | nil => rfl
  | cons key keys ih =>
    obtain ⟨n, hn⟩ := mem_keys.mp (hlive key List.mem_cons_self)
    have hrest := ih fun k hk => hlive k (List.mem_cons_of_mem _ hk)
    have hflag := h.isStart_iff key n hn
    rw [List.filterMap_cons_some hn]
    by_cases hs : d.start = some key
    · rw [List.filter_cons_of_pos (hflag.mpr hs), List.map_cons, hrest, h.key_eq key n hn,
        List.filter_cons_of_pos (by simpa using hs)]
    · rw [List.filter_cons_of_neg (not_congr hflag |>.mpr hs), hrest,
        List.filter_cons_of_neg (by simpa using hs)]

theorem flaggedStarts_eq (h : d.Framed) : d.flaggedStarts = d.start.toList := by
  rw [flaggedStarts, nodes, h.flagged_of_live fun key hk => (h.mem_order key).mp hk]
  cases hs : d.start with
  | none => simp
  | some start =>
    have hm : start ∈ d.order := (h.mem_order start).mpr (h.start_mem start hs)
    have hone : d.order.count start = 1 := List.nodup_iff_count_eq_one.mp h.order_nodup start hm
    have hfilter : d.order.filter (fun key => key = start) = [start] := by
      rw [List.filter_eq, hone, List.replicate_one]
    simpa [eq_comm] using hfilter

theorem checkListed_eq_ok (h : d.Framed) {key : StateKey} (hk : key ∈ d.order) :
    d.checkListed key = .ok () := by
  obtain ⟨n, hn⟩ := mem_keys.mp ((h.mem_order key).mp hk)
  simp [checkListed, hn, h.key_eq key n hn]

theorem checkEdge_eq_ok_iff (h : d.Framed) {e : Edge} (he : e ∈ d.edges) :
    d.checkEdge e = .ok () ↔ d.Lists e := by
  obtain ⟨source, hs⟩ := mem_keys.mp (h.ends_mem e he).1
  obtain ⟨destination, hd⟩ := mem_keys.mp (h.ends_mem e he).2
  simp [checkEdge, Lists, hs, hd]

/-- Where all else agrees, the check looks for transitions that are not listed. -/
theorem verify_eq_ok_iff_lists (h : d.Framed) : d.verify = .ok () ↔ ∀ e ∈ d.edges, d.Lists e := by
  rw [verify_eq_ok_iff]
  constructor
  · rintro ⟨_, _, _, hedges⟩ e he
    exact (h.checkEdge_eq_ok_iff he).mp (hedges e he)
  · intro hlists
    exact ⟨h.order_length, fun _ => h.checkListed_eq_ok, h.flaggedStarts_eq,
      fun e he => (h.checkEdge_eq_ok_iff he).mpr (hlists e he)⟩

end Framed

namespace Consistent

variable {d : Diagram}

theorem lists (h : d.Consistent) {e : Edge} (he : e ∈ d.edges) : d.Lists e := by
  obtain ⟨source, hs⟩ := mem_keys.mp (h.ends_mem e he).1
  refine ⟨source, hs, ?_⟩
  rw [h.destinations_eq hs]
  exact List.mem_map_of_mem (List.mem_filter.mpr ⟨he, by simp⟩)

theorem verify_eq_ok (h : d.Consistent) : d.verify = .ok () :=
  h.framed.verify_eq_ok_iff_lists.mpr fun _ => h.lists

end Consistent

end Diagram

end AutomatonSketch
