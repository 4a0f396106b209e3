import SpecWording.Proofs.Syntax.Nesting
import SpecWording.Proofs.Text.Span
import SpecWording.Wording.ExampleRule

/-!
# The flagged descriptions of a tree

A flagged description stands inside a literal that is a child of its block. In a well-nested tree
two blocks therefore never flag texts that touch: if one block is below the other, then it is below
another child than that literal, for a literal has nothing below it.
-/

namespace SpecWording.Wording

open Syntax (Node ByteRange)
open Syntax.Node
open Text (Span)

variable {source : String} {node tree : Node} {span : Span}

/-- The flagged descriptions of a tree, in the order of the walk. -/
def flaggedSpans (source : String) (tree : Node) : List Span := tree.walk.filterMap (detect source)

theorem flaggedLiteral?_eq_some {range : ByteRange} (h : flaggedLiteral? node = some range) :
    ∃ value, .str value range ∈ node.children := by
  unfold flaggedLiteral? at h
  split at h
  · next receiver method value range' others callRange body blockRange =>
    obtain ⟨-, heq⟩ := Option.ite_none_right_eq_some.mp h
    cases heq
    exact ⟨value, by simp [children]⟩
  · cases h

/-- A flagged description is the inside of a literal that is a child of its node. -/
theorem exists_literal_of_detect (h : detect source node = some span) :
    ∃ value range, .str value range ∈ node.children ∧
      Span.inner? source range.start range.stop = some span := by
  obtain ⟨range, hrange, hinner⟩ := Option.bind_eq_some_iff.mp h
  obtain ⟨value, hchild⟩ := flaggedLiteral?_eq_some hrange
  exact ⟨value, range, hchild, hinner⟩

theorem source_eq_of_detect (h : detect source node = some span) :
    span.source = source.toList := by
  obtain ⟨-, range, -, hinner⟩ := exists_literal_of_detect h
  exact Span.source_eq_of_inner? hinner

theorem source_eq_of_mem_flaggedSpans (h : span ∈ flaggedSpans source tree) :
    span.source = source.toList := by
  obtain ⟨node, -, hdetect⟩ := List.mem_filterMap.mp h
  exact source_eq_of_detect hdetect

/-- The insides of two ranges without a common byte are apart. -/
theorem apart_of_not_overlaps {a b : ByteRange} {first second : Span}
    (hfirst : Span.inner? source a.start a.stop = some first)
    (hsecond : Span.inner? source b.start b.stop = some second) (h : ¬ a.Overlaps b) :
    first.stop ≤ second.start ∨ second.stop ≤ first.start := by
  have ha := Span.lt_of_inner? hfirst
  have hb := Span.lt_of_inner? hsecond
  have hfirstLe := first.start_le_stop
  have hsecondLe := second.start_le_stop
  unfold ByteRange.Overlaps at h
  omega

/-- Wherever a tree flags a description, the literal lies inside the range of the tree. -/
theorem exists_range_of_detect (hnested : tree.WellNested) (hmem : node ∈ tree.walk)
    (h : detect source node = some span) :
    ∃ range : ByteRange, range.Within tree.range ∧
      Span.inner? source range.start range.stop = some span := by
  obtain ⟨value, range, hchild, hinner⟩ := exists_literal_of_detect h
  have hwithin := (hnested node hmem).1 _ hchild
  exact ⟨range, hwithin.trans (hnested.within hmem), hinner⟩

/-- Trees whose ranges share no byte flag descriptions that are apart. -/
theorem apart_of_detect {other tree' : Node} {first second : Span} (hnested : tree.WellNested)
    (hnested' : tree'.WellNested) (hranges : ¬ tree.range.Overlaps tree'.range)
    (hmem : node ∈ tree.walk) (hmem' : other ∈ tree'.walk) (hfirst : detect source node = some first)
    (hsecond : detect source other = some second) :
    first.stop ≤ second.start ∨ second.stop ≤ first.start := by
  obtain ⟨a, ha, hinner⟩ := exists_range_of_detect hnested hmem hfirst
  obtain ⟨b, hb, hinner'⟩ := exists_range_of_detect hnested' hmem' hsecond
  apply apart_of_not_overlaps hinner hinner'
  intro hoverlaps
  exact hranges (hoverlaps.mono ha hb)

/-- A block and a node below it flag descriptions that are apart. -/
theorem apart_of_detect_below {child other : Node} {first second : Span}
    (hnested : tree.WellNested) (hchild : child ∈ tree.children) (hmem : other ∈ child.walk)
    (hfirst : detect source tree = some first) (hsecond : detect source other = some second) :
    first.stop ≤ second.start ∨ second.stop ≤ first.start := by
  obtain ⟨value, range, hliteral, hinner⟩ := exists_literal_of_detect hfirst
  have hne : .str value range ≠ child := by
    rintro rfl
    rw [walk_eq, children, List.flatMap_nil, List.mem_singleton] at hmem
    subst hmem
    cases hsecond
  obtain ⟨range', hwithin, hinner'⟩ :=
    exists_range_of_detect (hnested.of_mem_children hchild) hmem hsecond
  apply apart_of_not_overlaps hinner hinner'
  intro hoverlaps
  exact hnested.not_overlaps hliteral hchild hne (hoverlaps.mono (.refl range) hwithin)

/-- The flagged descriptions of a well-nested tree are apart from each other. -/
theorem pairwise_flaggedSpans (source : String) (hnested : tree.WellNested) :
    (flaggedSpans source tree).Pairwise fun first second ↦
      first.stop ≤ second.start ∨ second.stop ≤ first.start := by
  unfold flaggedSpans
  induction tree using induction_on_children with
  | step tree ih =>
    rw [List.pairwise_filterMap, walk_eq, List.pairwise_cons, List.pairwise_flatMap]
    refine ⟨?_, ?_, ?_⟩
    · intro other hother first hfirst second hsecond
      obtain ⟨child, hchild, hmem⟩ := List.mem_flatMap.mp hother
      exact apart_of_detect_below hnested hchild hmem hfirst hsecond
    · intro child hchild
      exact List.pairwise_filterMap.mp (ih child hchild (hnested.of_mem_children hchild))
    · refine (hnested tree (self_mem_walk tree)).2.imp_of_mem ?_
      intro child sibling hchild hsibling hranges node hnode other hother first hfirst second hsecond
      exact apart_of_detect (hnested.of_mem_children hchild) (hnested.of_mem_children hsibling)
        hranges hnode hother hfirst hsecond

end SpecWording.Wording
