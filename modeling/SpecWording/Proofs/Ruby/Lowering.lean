import Mathlib.Data.List.Basic
import SpecWording.Proofs.Syntax.Walk
import SpecWording.Ruby.Tree

/-!
# Where lowered nodes come from

Lowering leaves trees out and takes wrappers away, but it makes nothing up: the children of a tree's
node are the nodes of some trees below it, its `absorbed` trees. So every node of a lowered tree is
the node of a part of that tree, and what holds of all parts by themselves holds all over the walk.
-/

namespace SpecWording.Syntax.Node

/-- The call that a node is, or that it puts a block to. -/
def invocation? : Node → Option (Call Node)
  | block invocation _ _ => some invocation
  | call invocation => some invocation
  | _ => none

end SpecWording.Syntax.Node

namespace SpecWording.Ruby

open Syntax (Node ByteRange)
open Text (Cuts)

namespace Tree

/-- A part of a tree is the tree or a part of one of its children. -/
inductive IsPartOf (part : Tree) : Tree → Prop
  | self : IsPartOf part part
  | child {tree child : Tree} (hchild : child ∈ tree.children) (h : IsPartOf part child) :
    IsPartOf part tree

/-- The first child with a role. -/
def part? (tree : Tree) (role : Role) : Option Tree := tree.children.find? (·.role == role)

/-- The children but for comments. -/
def contents (tree : Tree) : List Tree := tree.children.filter fun child ↦ !(child.kind == "comment")

def contentsOf (tree : Tree) (role : Role) : List Tree := ((tree.part? role).map contents).getD []

/-- The receiver and the arguments of a call. -/
def operands (tree : Tree) : List Tree :=
  (tree.part? .receiver).toList ++ tree.contentsOf .arguments

/-- A call without its block: it ends with its arguments, or with its name if it has none. -/
def invocation (tree : Tree) : ByteRange :=
  ⟨tree.start, match tree.part? .arguments <|> tree.part? .method with
    | some part => part.stop
    | none => tree.stop⟩

/-- The trees whose nodes are the children of the tree's own node. -/
def absorbed (tree : Tree) : List Tree :=
  match tree.kind with
  | "call" => tree.operands ++ tree.contentsOf .block
  | "string" => if tree.children.any (·.kind == "interpolation") then tree.children else []
  | "simple_symbol" | "delimited_symbol" | "hash_key_symbol" => []
  | _ => tree.contents

/-- The range of the tree's own node: only a call without a block has another one than the tree. -/
def nodeRange (tree : Tree) : ByteRange :=
  if tree.kind = "call" ∧ (tree.part? .block).isNone then tree.invocation else tree.range

variable {tree part child : Tree} {role : Role} {source : String} {cuts : Cuts}

theorem isPartOf_of_mem_children (h : child ∈ tree.children) : child.IsPartOf tree :=
  .child h .self

theorem IsPartOf.trans {other : Tree} (hpart : part.IsPartOf other) (hother : other.IsPartOf tree) :
    part.IsPartOf tree := by
  induction hother with
  | self => exact hpart
  | child hchild _ ih => exact .child hchild ih

theorem part?_eq_some (h : tree.part? role = some part) :
    part ∈ tree.children ∧ part.role = role :=
  ⟨List.mem_of_find?_eq_some h, by simpa using List.find?_some h⟩

theorem isPartOf_of_part? (h : tree.part? role = some part) : part.IsPartOf tree :=
  isPartOf_of_mem_children (part?_eq_some h).1

theorem isPartOf_of_mem_contents (h : child ∈ tree.contents) : child.IsPartOf tree :=
  isPartOf_of_mem_children (List.mem_of_mem_filter h)

theorem exists_part?_of_mem_contentsOf (h : child ∈ tree.contentsOf role) :
    ∃ part, tree.part? role = some part ∧ child ∈ part.contents := by
  unfold contentsOf at h
  cases hpart : tree.part? role with
  | none => simp [hpart] at h
  | some part =>
    rw [hpart] at h
    exact ⟨part, rfl, h⟩

theorem isPartOf_of_mem_contentsOf (h : child ∈ tree.contentsOf role) : child.IsPartOf tree := by
  obtain ⟨part, hpart, hchild⟩ := exists_part?_of_mem_contentsOf h
  exact (isPartOf_of_mem_contents hchild).trans (isPartOf_of_part? hpart)

theorem absorbed_of_call (h : tree.kind = "call") :
    tree.absorbed = tree.operands ++ tree.contentsOf .block := by
  simp only [absorbed, h]

/-- All other trees take over some of their children. -/
theorem absorbed_sublist (h : tree.kind ≠ "call") : tree.absorbed.Sublist tree.children := by
  unfold absorbed
  split
  · next hkind => exact absurd hkind h
  · split
    · exact .refl _
    · exact List.nil_sublist _
  · exact List.nil_sublist _
  · exact List.nil_sublist _
  · exact List.nil_sublist _
  · exact List.filter_sublist

theorem isPartOf_of_mem_absorbed (h : child ∈ tree.absorbed) : child.IsPartOf tree := by
  by_cases hcall : tree.kind = "call"
  · rw [absorbed_of_call hcall] at h
    rcases List.mem_append.mp h with h | h
    · rcases List.mem_append.mp h with h | h
      · exact isPartOf_of_part? (Option.mem_toList.mp h)
      · exact isPartOf_of_mem_contentsOf h
    · exact isPartOf_of_mem_contentsOf h
  · exact isPartOf_of_mem_children ((absorbed_sublist hcall).subset h)

theorem nodeRange_of_not_call (h : tree.kind ≠ "call") : tree.nodeRange = tree.range :=
  if_neg fun hcall ↦ h hcall.1

/-! ## The node of a tree -/

theorem tree_lowered (tree : Tree) (cuts : Cuts) : (tree.lowered cuts).tree = tree := by
  cases tree
  rfl

theorem loweredAll_eq_map (cuts : Cuts) (trees : List Tree) :
    loweredAll cuts trees = trees.map (lowered cuts) := by
  induction trees with
  | nil => rfl
  | cons tree trees ih => rw [loweredAll, ih, List.map_cons]

theorem nodes_map_lowered (cuts : Cuts) (trees : List Tree) :
    Lowered.nodes (trees.map (lowered cuts)) =
      (trees.filter fun tree ↦ !(tree.kind == "comment")).map fun tree ↦ (tree.lowered cuts).node := by
  rw [Lowered.nodes, List.filter_map, List.map_map]
  simp only [Function.comp_def, Lowered.isComment, tree_lowered]

theorem lowered_eq (cuts : Cuts) (tree : Tree) : tree.lowered cuts =
    ⟨tree, lowerNode cuts tree (tree.children.map (lowered cuts)),
      tree.contents.map fun child ↦ (child.lowered cuts).node⟩ := by
  cases tree
  rw [lowered, loweredAll_eq_map, nodes_map_lowered]
  rfl

theorem any_kind_map_lowered (cuts : Cuts) (trees : List Tree) (kind : String) :
    (trees.map (lowered cuts)).any (·.tree.kind == kind) = trees.any (·.kind == kind) := by
  rw [List.any_map]
  simp only [Function.comp_def, tree_lowered]

theorem find?_map_lowered (cuts : Cuts) (tree : Tree) (role : Role) :
    Lowered.find? (tree.children.map (lowered cuts)) role =
      (tree.part? role).map (lowered cuts) := by
  rw [Lowered.find?, List.find?_map, part?]
  simp only [Function.comp_def, tree_lowered]

theorem lower_eq (source : String) (tree : Tree) : tree.lower source =
    lowerNode (Cuts.ofText source) tree (tree.children.map (lowered (Cuts.ofText source))) := by
  rw [lower, lowered_eq]

theorem lower_of_call (source : String) (h : tree.kind = "call") : tree.lower source =
    lowerCall (Cuts.ofText source) tree.range
      (tree.children.map (lowered (Cuts.ofText source))) := by
  rw [lower_eq, lowerNode]
  simp only [h]

theorem map_parts_part? (cuts : Cuts) (tree : Tree) (role : Role) :
    (((tree.part? role).map (lowered cuts)).map Lowered.parts).getD [] =
      (tree.contentsOf role).map fun child ↦ (child.lowered cuts).node := by
  unfold contentsOf
  cases tree.part? role with
  | none => rfl
  | some part => simp [lowered_eq cuts part]

/-- The children of a call are its receiver, its arguments and what its block contains. -/
theorem children_lowerCall (cuts : Cuts) (tree : Tree) :
    (lowerCall cuts tree.range (tree.children.map (lowered cuts))).children =
      (tree.operands ++ tree.contentsOf .block).map fun child ↦ (child.lowered cuts).node := by
  have hbody := map_parts_part? cuts tree .block
  have hreceiver : ((tree.part? .receiver).map (lowered cuts)).map Lowered.node =
      (tree.part? .receiver).map fun child ↦ (child.lowered cuts).node := Option.map_map ..
  unfold lowerCall operands
  simp only [find?_map_lowered, map_parts_part?, hreceiver, List.map_append, ← Option.toList_map]
  cases hblock : tree.part? .block with
  | none =>
    rw [hblock] at hbody
    rw [← hbody]
    exact (List.append_nil _).symm
  | some block =>
    rw [hblock] at hbody
    rw [← hbody]
    rfl

theorem range_of_mem_invocation?_lowerCall {call : Syntax.Call Node}
    (h : call ∈ (lowerCall cuts tree.range (tree.children.map (lowered cuts))).invocation?) :
    call.range = tree.invocation := by
  have hlast : ((tree.part? .arguments).map (lowered cuts) <|>
      (tree.part? .method).map (lowered cuts)) =
        (tree.part? .arguments <|> tree.part? .method).map (lowered cuts) := by
    cases tree.part? .arguments <;> rfl
  unfold lowerCall at h
  unfold invocation
  simp only [find?_map_lowered, hlast] at h
  cases hend : tree.part? .arguments <|> tree.part? .method with
  | none =>
    rw [hend] at h
    cases hblock : tree.part? .block <;> rw [hblock] at h <;> cases h <;> rfl
  | some part =>
    rw [hend] at h
    cases hblock : tree.part? .block <;> rw [hblock] at h <;> cases h <;>
      simp [tree_lowered, start]

theorem range_lowerCall (cuts : Cuts) (tree : Tree) :
    (lowerCall cuts tree.range (tree.children.map (lowered cuts))).range =
      if (tree.part? .block).isNone then tree.invocation else tree.range := by
  cases hblock : tree.part? .block with
  | none =>
    have hnode : ∃ call, lowerCall cuts tree.range (tree.children.map (lowered cuts)) =
        .call call := by
      unfold lowerCall
      simp only [find?_map_lowered, hblock]
      exact ⟨_, rfl⟩
    obtain ⟨call, hcall⟩ := hnode
    rw [hcall]
    apply range_of_mem_invocation?_lowerCall
    rw [hcall]
    rfl
  | some block =>
    unfold lowerCall
    simp only [find?_map_lowered, hblock]
    rfl

theorem lower_of_string (source : String) (h : tree.kind = "string") :
    (tree.lower source).range = tree.range ∧ (tree.lower source).invocation? = none ∧
      (tree.lower source).children = tree.absorbed.map (lower source) := by
  rw [lower_eq, lowerNode]
  simp only [absorbed, h, lowerString, any_kind_map_lowered]
  split
  · exact ⟨rfl, rfl, by simp [Node.children, lower, Function.comp_def]⟩
  · split <;> exact ⟨rfl, rfl, rfl⟩

/-- All other trees keep their range. -/
theorem lower_of_not_call (source : String) (h : tree.kind ≠ "call") :
    (tree.lower source).range = tree.range ∧ (tree.lower source).invocation? = none ∧
      (tree.lower source).children = tree.absorbed.map (lower source) := by
  by_cases hstring : tree.kind = "string"
  · exact lower_of_string source hstring
  · rw [lower_eq, lowerNode]
    split
    · next hkind => exact absurd hkind h
    · next hkind => exact absurd hkind hstring
    · next hkind => exact ⟨rfl, rfl, by simp only [absorbed, hkind]; rfl⟩
    · next hkind => exact ⟨rfl, rfl, by simp only [absorbed, hkind]; rfl⟩
    · next hkind => exact ⟨rfl, rfl, by simp only [absorbed, hkind]; rfl⟩
    · refine ⟨rfl, rfl, ?_⟩
      simp only [absorbed]
      exact nodes_map_lowered _ _

/-- The children of a tree's node are nodes of other parts of the tree. -/
theorem children_lower (source : String) (tree : Tree) :
    (tree.lower source).children = tree.absorbed.map (lower source) := by
  by_cases hcall : tree.kind = "call"
  · rw [lower_of_call source hcall, absorbed_of_call hcall]
    exact children_lowerCall (Cuts.ofText source) tree
  · exact (lower_of_not_call source hcall).2.2

theorem range_lower (source : String) (tree : Tree) :
    (tree.lower source).range = tree.nodeRange := by
  by_cases hcall : tree.kind = "call"
  · rw [lower_of_call source hcall, range_lowerCall, nodeRange]
    simp only [hcall, true_and]
  · rw [(lower_of_not_call source hcall).1, nodeRange_of_not_call hcall]

theorem range_of_mem_invocation? {call : Syntax.Call Node}
    (h : call ∈ (tree.lower source).invocation?) : call.range = tree.invocation := by
  by_cases hcall : tree.kind = "call"
  · rw [lower_of_call source hcall] at h
    exact range_of_mem_invocation?_lowerCall h
  · rw [(lower_of_not_call source hcall).2.1] at h
    cases h

/-- Every node of a lowered tree is the node of a part of the tree. -/
theorem exists_part_of_mem_walk {node : Node} (h : node ∈ (tree.lower source).walk) :
    ∃ part : Tree, part.IsPartOf tree ∧ node = part.lower source := by
  generalize hroot : tree.lower source = root at h
  induction root using Node.induction_on_children generalizing tree with
  | step root ih =>
    subst hroot
    rcases Node.mem_walk_iff.mp h with rfl | ⟨child, hchild, hnode⟩
    · exact ⟨tree, .self, rfl⟩
    · obtain ⟨other, hother, rfl⟩ := List.mem_map.mp (children_lower source tree ▸ hchild)
      obtain ⟨part, hpart, hnode⟩ := ih _ hchild rfl hnode
      exact ⟨part, hpart.trans (isPartOf_of_mem_absorbed hother), hnode⟩

end Tree

end SpecWording.Ruby
