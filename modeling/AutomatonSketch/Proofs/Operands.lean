import AutomatonSketch.ParseTree.Basic
import Mathlib.Algebra.Order.BigOperators.Group.List
import Mathlib.Algebra.Order.Ring.Nat

/-! Parse trees, told by the operands that are present. -/

namespace AutomatonSketch

namespace ParseTree

/-- What holds of a tree if it holds of all its operands, holds of all trees. -/
theorem induction {motive : ParseTree → Prop}
    (step : ∀ t, (∀ operand ∈ t.children, motive operand) → motive t) (t : ParseTree) :
    motive t := by
  refine @ParseTree.rec motive (fun operand => ∀ t ∈ operand.toList, motive t) ?_ ?_ ?_ ?_ ?_ ?_ t
  case refine_1 => exact fun character => step (literal character) nofun
  case refine_2 =>
    intro symbol name left right hleft hright
    exact step (or symbol name left right) fun t ht =>
      (List.mem_append.mp ht).elim (hleft t) (hright t)
  case refine_3 =>
    intro symbol name left right hleft hright
    exact step (concatenation symbol name left right) fun t ht =>
      (List.mem_append.mp ht).elim (hleft t) (hright t)
  case refine_4 => exact fun symbol name inner hinner => step (kleene symbol name inner) hinner
  case refine_5 => exact nofun
  case refine_6 =>
    intro operand hoperand t ht
    exact List.mem_singleton.mp ht ▸ hoperand

theorem operandSize_eq (operand : Option ParseTree) :
    operandSize operand = (operand.toList.map size).sum := by
  cases operand <;> simp [operandSize]

theorem size_eq (t : ParseTree) : t.size = 1 + (t.children.map size).sum := by
  cases t <;> simp [size, children, operandSize_eq, Nat.add_assoc]

theorem size_lt_of_mem_children {t operand : ParseTree} (h : operand ∈ t.children) :
    operand.size < t.size := by
  have hle := List.le_sum_of_mem (List.mem_map_of_mem (f := size) h)
  rw [size_eq t]
  omega

end ParseTree

end AutomatonSketch
