import SpecWording.Proofs.Syntax.Nesting

/-!
# Trees in the order of their source

Well-nested siblings share no byte but may stand in any order. In a tree that follows its source
every child also starts where the child before it has ended or later, and then the walk never goes
back: from one node to the next the start never decreases.
-/

namespace SpecWording.Syntax

namespace ByteRange

/-- Whether ranges lie inside a range, one behind the other. -/
structure Frames (outer : ByteRange) (ranges : List ByteRange) : Prop where
  within : ∀ range ∈ ranges, range.Within outer
  behind : ranges.Pairwise fun first second ↦ first.stop ≤ second.start

variable {outer wider : ByteRange} {ranges others : List ByteRange}

namespace Frames

theorem nil (outer : ByteRange) : outer.Frames [] := ⟨by simp, .nil⟩

theorem singleton {range : ByteRange} (h : range.Within outer) : outer.Frames [range] :=
  ⟨by simpa using h, by simp⟩

theorem mono (h : outer.Frames ranges) (hwider : outer.Within wider) : wider.Frames ranges :=
  ⟨fun range hrange ↦ (h.within range hrange).trans hwider, h.behind⟩

theorem sublist (h : outer.Frames ranges) (hsub : others.Sublist ranges) : outer.Frames others :=
  ⟨fun range hrange ↦ h.within range (hsub.subset hrange), h.behind.sublist hsub⟩

theorem append (hranges : outer.Frames ranges) (hothers : outer.Frames others)
    (hbehind : ∀ first ∈ ranges, ∀ second ∈ others, first.stop ≤ second.start) :
    outer.Frames (ranges ++ others) := by
  refine ⟨?_, List.pairwise_append.mpr ⟨hranges.behind, hothers.behind, hbehind⟩⟩
  intro range hrange
  exact (List.mem_append.mp hrange).elim (hranges.within range) (hothers.within range)

/-- Parts of framed ranges are framed. -/
theorem shrink {α : Type} {items : List α} {range part : α → ByteRange}
    (h : outer.Frames (items.map range)) (hpart : ∀ item ∈ items, (part item).Within (range item)) :
    outer.Frames (items.map part) := by
  refine ⟨?_, List.pairwise_map.mpr ((List.pairwise_map.mp h.behind).imp_of_mem ?_)⟩
  · intro inner hinner
    obtain ⟨item, hitem, rfl⟩ := List.mem_map.mp hinner
    exact (hpart item hitem).trans (h.within _ (List.mem_map_of_mem hitem))
  · intro first second hfirst hsecond hle
    have hstop := (hpart first hfirst).2
    have hstart := (hpart second hsecond).1
    omega

end Frames

end ByteRange

namespace Node

/-- A node that ends no earlier than it starts and has its children in their order inside. -/
structure FramesChildren (node : Node) : Prop where
  ordered : node.range.start ≤ node.range.stop
  framed : node.range.Frames (node.children.map range)

/-- Every node of the tree frames its children. -/
def InOrder (tree : Node) : Prop := ∀ node ∈ tree.walk, node.FramesChildren

variable {tree child node : Node}

theorem InOrder.of_mem_children (h : tree.InOrder) (hchild : child ∈ tree.children) :
    child.InOrder := by
  intro node hnode
  exact h node (walk_subset_of_mem_children hchild hnode)

theorem InOrder.wellNested (h : tree.InOrder) : tree.WellNested := by
  intro node hnode
  have hframed := (h node hnode).framed
  refine ⟨?_, (List.pairwise_map.mp hframed.behind).imp ?_⟩
  · intro child hchild
    exact hframed.within _ (List.mem_map_of_mem hchild)
  · intro first second hle hoverlaps
    unfold ByteRange.Overlaps at hoverlaps
    omega

/-- Along the walk the starts of the nodes never decrease. -/
theorem InOrder.pairwise_start_le (h : tree.InOrder) :
    tree.walk.Pairwise fun first second ↦ first.range.start ≤ second.range.start := by
  induction tree using induction_on_children with
  | step tree ih =>
    have hframed := (h tree (self_mem_walk tree)).framed
    have hbehind := List.pairwise_map.mp hframed.behind
    have hwithin {child node : Node} (hchild : child ∈ tree.children) (hnode : node ∈ child.walk) :
        node.range.Within child.range := (h.of_mem_children hchild).wellNested.within hnode
    rw [walk_eq, List.pairwise_cons, List.pairwise_flatMap]
    refine ⟨?_, ?_, hbehind.imp_of_mem ?_⟩
    · intro node hnode
      obtain ⟨child, hchild, hnode⟩ := List.mem_flatMap.mp hnode
      exact ((hwithin hchild hnode).trans (hframed.within _ (List.mem_map_of_mem hchild))).1
    · intro child hchild
      exact ih child hchild (h.of_mem_children hchild)
    · intro child sibling hchild hsibling hle first hfirst second hsecond
      have hstart := (h.of_mem_children hchild first hfirst).ordered
      have hstop := (hwithin hchild hfirst).2
      have hsecond := (hwithin hsibling hsecond).1
      omega

end Node

end SpecWording.Syntax
