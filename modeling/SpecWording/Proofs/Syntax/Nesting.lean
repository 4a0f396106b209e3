import Mathlib.Data.List.Pairwise
import SpecWording.Proofs.Syntax.Walk

/-!
# Well-nested trees

Whoever builds a tree gives every node a range of its own. A tree is well nested if children stay
inside their parents and siblings share no byte; nothing is said about the order of siblings. Two
nodes of which neither is above the other then share no byte either, however far down they are.
-/

namespace SpecWording.Syntax

namespace ByteRange

/-- Whether some byte belongs to both ranges. -/
def Overlaps (a b : ByteRange) : Prop := max a.start b.start < min a.stop b.stop

def Within (inner outer : ByteRange) : Prop :=
  outer.start ≤ inner.start ∧ inner.stop ≤ outer.stop

instance (a b : ByteRange) : Decidable (a.Overlaps b) := inferInstanceAs (Decidable (_ < _))

instance (inner outer : ByteRange) : Decidable (inner.Within outer) :=
  inferInstanceAs (Decidable (_ ∧ _))

theorem Within.refl (range : ByteRange) : range.Within range := ⟨Nat.le_refl _, Nat.le_refl _⟩

theorem Within.trans {a b c : ByteRange} (hab : a.Within b) (hbc : b.Within c) : a.Within c :=
  ⟨Nat.le_trans hbc.1 hab.1, Nat.le_trans hab.2 hbc.2⟩

theorem Overlaps.symm {a b : ByteRange} (h : a.Overlaps b) : b.Overlaps a := by
  unfold Overlaps at *
  rwa [Nat.max_comm, Nat.min_comm]

/-- Parts of two ranges overlap only where the ranges do. -/
theorem Overlaps.mono {a b c d : ByteRange} (h : a.Overlaps b) (hac : a.Within c)
    (hbd : b.Within d) : c.Overlaps d := by
  unfold Overlaps Within at *
  omega

end ByteRange

namespace Node

/-- Below every node the children lie inside its range, and no two of them share a byte. -/
def WellNested (tree : Node) : Prop :=
  ∀ node ∈ tree.walk, (∀ child ∈ node.children, child.range.Within node.range) ∧
    node.children.Pairwise fun first second ↦ ¬ first.range.Overlaps second.range

instance (tree : Node) : Decidable tree.WellNested :=
  inferInstanceAs (Decidable (∀ node ∈ tree.walk, _))

variable {tree : Node}

theorem WellNested.of_mem_children {child : Node} (h : tree.WellNested)
    (hchild : child ∈ tree.children) : child.WellNested := by
  intro node hnode
  exact h node (walk_subset_of_mem_children hchild hnode)

theorem WellNested.child_within {child : Node} (h : tree.WellNested)
    (hchild : child ∈ tree.children) : child.range.Within tree.range :=
  (h tree (self_mem_walk tree)).1 child hchild

/-- Every node of a well-nested tree lies inside the range of the tree. -/
theorem WellNested.within {node : Node} (h : tree.WellNested) (hnode : node ∈ tree.walk) :
    node.range.Within tree.range := by
  induction tree using induction_on_children with
  | step tree ih =>
    rcases mem_walk_iff.mp hnode with rfl | ⟨child, hchild, hnode⟩
    · exact ByteRange.Within.refl _
    · exact (ih child hchild (h.of_mem_children hchild) hnode).trans (h.child_within hchild)

/-- Different children share no byte, whichever of them comes first. -/
theorem WellNested.not_overlaps {first second : Node} (h : tree.WellNested)
    (hfirst : first ∈ tree.children) (hsecond : second ∈ tree.children) (hne : first ≠ second) :
    ¬ first.range.Overlaps second.range := by
  have : Std.Symm fun a b : Node ↦ ¬ a.range.Overlaps b.range :=
    ⟨fun _ _ hab hba ↦ hab hba.symm⟩
  exact (h tree (self_mem_walk tree)).2.forall hfirst hsecond hne

end Node

end SpecWording.Syntax
