import Mathlib.Data.List.Basic
import SpecWording.Syntax.Traversal

/-!
# The walk and the shape of a tree

The pending list of `Node.visit` is a forest, and visiting it is visiting its trees one by one. So a
walk is a node followed by the walks of its children, and properties of walks follow by
`Node.induction_on_children` without another look at the pending list.
-/

namespace SpecWording.Syntax.Node

theorem count_le_countAll {node : Node} {nodes : List Node} (h : node ∈ nodes) :
    node.count ≤ countAll nodes := by
  induction nodes with
  | nil => cases h
  | cons first others ih =>
    rw [countAll_cons]
    rcases List.mem_cons.mp h with rfl | h
    · exact Nat.le_add_right _ _
    · exact Nat.le_trans (ih h) (Nat.le_add_left _ _)

theorem count_lt_of_mem_children {child node : Node} (h : child ∈ node.children) :
    child.count < node.count := by
  have hle := count_le_countAll h
  rw [count_eq node]
  omega

/-- What holds of a node as soon as it holds of its children holds of every node. -/
theorem induction_on_children {motive : Node → Prop}
    (step : ∀ node, (∀ child ∈ node.children, motive child) → motive node) (node : Node) :
    motive node := by
  apply step
  intro child hchild
  exact induction_on_children step child
termination_by node.count
decreasing_by exact count_lt_of_mem_children hchild

/-! ## Visiting a forest -/

theorem visit_append (xs ys : List Node) : visit (xs ++ ys) = visit xs ++ visit ys := by
  induction xs using visit.induct with
  | case1 => simp [visit]
  | case2 node pending ih =>
    rw [List.cons_append, visit, ← List.append_assoc, ih, visit, List.cons_append]

theorem visit_eq_flatMap_walk (nodes : List Node) : visit nodes = nodes.flatMap walk := by
  induction nodes with
  | nil => simp [visit]
  | cons node nodes ih =>
    rw [← List.singleton_append, visit_append, ih, List.singleton_append, List.flatMap_cons, walk]

/-- A walk is the node and then the walk of each child. -/
theorem walk_eq (node : Node) : node.walk = node :: node.children.flatMap walk := by
  rw [walk, visit, List.append_nil, visit_eq_flatMap_walk]

theorem mem_walk_iff {other node : Node} :
    other ∈ node.walk ↔ other = node ∨ ∃ child ∈ node.children, other ∈ child.walk := by
  rw [walk_eq, List.mem_cons, List.mem_flatMap]

theorem self_mem_walk (node : Node) : node ∈ node.walk := mem_walk_iff.mpr (.inl rfl)

theorem walk_subset_of_mem_children {child node : Node} (h : child ∈ node.children) :
    child.walk ⊆ node.walk := by
  intro other hother
  exact mem_walk_iff.mpr (.inr ⟨child, h, hother⟩)

/-! ## The order by recursion -/

theorem preorderAll_eq_flatMap (nodes : List Node) :
    preorderAll nodes = nodes.flatMap preorder := by
  induction nodes with
  | nil => rw [preorderAll, List.flatMap_nil]
  | cons node nodes ih => rw [preorderAll, ih, List.flatMap_cons]

theorem preorderOption_eq_flatMap (receiver : Option Node) :
    preorderOption receiver = receiver.toList.flatMap preorder := by
  cases receiver <;> simp [preorderOption]

theorem preorder_eq (node : Node) : node.preorder = node :: node.children.flatMap preorder := by
  cases node <;> simp [preorder, children, preorderAll_eq_flatMap, preorderOption_eq_flatMap]

/-- The list of pending nodes gives the order that the recursion gives. -/
theorem walk_eq_preorder (node : Node) : node.walk = node.preorder := by
  induction node using induction_on_children with
  | step node ih => rw [walk_eq, preorder_eq, List.flatMap_congr ih]

end SpecWording.Syntax.Node
