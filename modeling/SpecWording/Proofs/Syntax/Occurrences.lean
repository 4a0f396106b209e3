import Mathlib.Data.List.Nodup
import SpecWording.Proofs.Syntax.Walk

/-!
# Every occurrence of a node once

A walk can be run with a stack: its last node is taken off and the children are put in its place,
the first of them last. The stack may grow at every turn, but what is left to visit is the forest
that it holds, read from its end, and that becomes smaller.

Equal nodes may stand in a tree more than once, so an occurrence is a position: the steps that lead
down to it from the root. The walk visits the positions of a tree one by one, leaves none out, comes
to none twice, and comes to each before it comes to those below.
-/

namespace SpecWording.Syntax

/-- A step from a node down to one that is part of it. -/
inductive Step where
  | receiver
  | argument (index : Nat)
  | statement (index : Nat)
  | part (index : Nat)
  | child (index : Nat)
  deriving DecidableEq, Repr

/-- The steps from the root of a tree down to an occurrence of a node. -/
abbrev Position := List Step

namespace Node

/-! ## Walking with a stack -/

/-- The node at the end of a stack, and the stack with the node's children in its place. -/
def next? (stack : List Node) : Option (Node × List Node) := do
  let node ← stack.getLast?
  return (node, stack.dropLast ++ node.children.reverse)

theorem next?_concat (stack : List Node) (node : Node) :
    next? (stack ++ [node]) = some (node, stack ++ node.children.reverse) := by
  simp [next?]

/-- Taking nodes off a stack until it is empty gives these. -/
inductive Yields : List Node → List Node → Prop where
  | done {stack : List Node} (h : next? stack = none) : Yields stack []
  | more {stack rest nodes : List Node} {node : Node} (hnext : next? stack = some (node, rest))
      (hrest : Yields rest nodes) : Yields stack (node :: nodes)

variable {stack nodes others : List Node} {node tree : Node} {step : Step} {position : Position}

theorem Yields.unique (h : Yields stack nodes) (hother : Yields stack others) : nodes = others := by
  induction h generalizing others with
  | done hnone =>
    cases hother with
    | done => rfl
    | more hnext => cases hnone.symm.trans hnext
  | more hnext _ ih =>
    cases hother with
    | done hnone => cases hnone.symm.trans hnext
    | more hnext' hrest =>
      cases hnext.symm.trans hnext'
      rw [ih hrest]

/-- The end of the stack is the beginning of the pending list. -/
theorem yields_visit (pending : List Node) : Yields pending.reverse (visit pending) := by
  induction pending using visit.induct with
  | case1 =>
    rw [visit]
    exact .done rfl
  | case2 node pending ih =>
    rw [List.reverse_append] at ih
    rw [visit, List.reverse_cons]
    exact .more (next?_concat _ _) ih

/-- A stack yields its trees from the last to the first, each in preorder, and nothing else. -/
theorem yields_iff : Yields stack nodes ↔ nodes = stack.reverse.flatMap preorder := by
  have hyields : Yields stack (stack.reverse.flatMap preorder) := by
    have h := yields_visit stack.reverse
    rwa [List.reverse_reverse, visit_eq_flatMap_walk,
      List.flatMap_congr fun tree _ ↦ walk_eq_preorder tree] at h
  constructor
  · intro h
    exact h.unique hyields
  · rintro rfl
    exact hyields

/-! ## Positions -/

/-- Where a step from a node leads. -/
def below? : Node → Step → Option Node
  | block invocation _ _, .receiver => invocation.receiver
  | block invocation _ _, .argument index => invocation.arguments[index]?
  | block _ body _, .statement index => body[index]?
  | call invocation, .receiver => invocation.receiver
  | call invocation, .argument index => invocation.arguments[index]?
  | interpolated parts _, .part index => parts[index]?
  | other _ children _, .child index => children[index]?
  | _, _ => none

/-- The node at a position, if the tree has that position. -/
def at? (tree : Node) : Position → Option Node
  | [] => some tree
  | step :: position => (tree.below? step).bind fun node ↦ node.at? position

/-- Nodes with the steps that lead to them, which count from zero. -/
def stepsTo (toStep : Nat → Step) (nodes : List Node) : List (Step × Node) :=
  nodes.zipIdx.map fun numbered ↦ (toStep numbered.2, numbered.1)

/-- The children of a node with the steps that lead to them. -/
def steps : Node → List (Step × Node)
  | block invocation body _ =>
    invocation.receiver.toList.map (Step.receiver, ·) ++ stepsTo .argument invocation.arguments ++
      stepsTo .statement body
  | call invocation =>
    invocation.receiver.toList.map (Step.receiver, ·) ++ stepsTo .argument invocation.arguments
  | str .. => []
  | interpolated parts _ => stepsTo .part parts
  | symbol .. => []
  | other _ children _ => stepsTo .child children

theorem map_snd_stepsTo (toStep : Nat → Step) (nodes : List Node) :
    (stepsTo toStep nodes).map Prod.snd = nodes := by
  simp [stepsTo, Function.comp_def]

theorem map_snd_steps (node : Node) : node.steps.map Prod.snd = node.children := by
  cases node <;> simp [steps, children, map_snd_stepsTo, Function.comp_def]

theorem mem_stepsTo {toStep : Nat → Step} : (step, node) ∈ stepsTo toStep nodes ↔
    ∃ index, toStep index = step ∧ nodes[index]? = some node := by
  simp only [stepsTo, List.mem_map, List.mem_zipIdx_iff_getElem?, Prod.exists, Prod.mk.injEq]
  constructor
  · rintro ⟨node, index, hindex, rfl, rfl⟩
    exact ⟨index, rfl, hindex⟩
  · rintro ⟨index, rfl, hindex⟩
    exact ⟨node, index, hindex, rfl, rfl⟩

theorem mem_steps : (step, node) ∈ tree.steps ↔ tree.below? step = some node := by
  cases tree <;> cases step <;> simp [steps, below?, mem_stepsTo]

theorem map_fst_stepsTo (toStep : Nat → Step) (nodes : List Node) :
    (stepsTo toStep nodes).map Prod.fst = (List.range nodes.length).map toStep := by
  rw [List.range_eq_range', ← List.zipIdx_map_snd, List.map_map, stepsTo, List.map_map]
  rfl

theorem nodup_stepsTo {toStep : Nat → Step} (h : toStep.Injective) (nodes : List Node) :
    ((stepsTo toStep nodes).map Prod.fst).Nodup := by
  rw [map_fst_stepsTo]
  exact List.Nodup.map h List.nodup_range

/-- Different children are reached by different steps. -/
theorem nodup_steps (node : Node) : (node.steps.map Prod.fst).Nodup := by
  have hreceiver (receiver : Option Node) :
      ((receiver.toList.map (Step.receiver, ·)).map Prod.fst).Nodup := by
    cases receiver <;> simp
  have harguments := @nodup_stepsTo .argument fun _ _ ↦ Step.argument.inj
  cases node with
  | block invocation body range =>
    rw [steps, List.map_append, List.map_append]
    refine ((hreceiver _).append (harguments _) ?_).append
      (nodup_stepsTo (fun _ _ ↦ Step.statement.inj) body) ?_
    · simp [List.Disjoint, map_fst_stepsTo]
    · intro step hfront hbody
      rw [map_fst_stepsTo] at hbody
      obtain ⟨index, -, rfl⟩ := List.mem_map.mp hbody
      simp [map_fst_stepsTo] at hfront
  | call invocation =>
    rw [steps, List.map_append]
    refine (hreceiver _).append (harguments _) ?_
    simp [List.Disjoint, map_fst_stepsTo]
  | str value range => exact .nil
  | interpolated parts range => exact nodup_stepsTo (fun _ _ ↦ Step.part.inj) parts
  | symbol range => exact .nil
  | other kind children range => exact nodup_stepsTo (fun _ _ ↦ Step.child.inj) children

theorem count_lt_of_mem_steps {entry : Step × Node} (h : entry ∈ tree.steps) :
    entry.2.count < tree.count := by
  refine count_lt_of_mem_children ?_
  rw [← map_snd_steps]
  exact List.mem_map_of_mem h

/-- The nodes of a tree in preorder, each with its position. -/
def located (tree : Node) : List (Position × Node) :=
  ([], tree) :: tree.steps.attach.flatMap fun entry ↦
    entry.val.2.located.map fun found ↦ (entry.val.1 :: found.1, found.2)
termination_by tree.count
decreasing_by exact count_lt_of_mem_steps entry.property

theorem located_eq (tree : Node) : tree.located = ([], tree) :: tree.steps.flatMap fun entry ↦
    entry.2.located.map fun found ↦ (entry.1 :: found.1, found.2) := by
  conv_rhs => rw [← List.attach_map_subtype_val tree.steps, List.flatMap_map]
  rw [located]

theorem map_snd_located (tree : Node) : tree.located.map Prod.snd = tree.walk := by
  induction tree using induction_on_children with
  | step tree ih =>
    have hchild : ∀ entry ∈ tree.steps, entry.2.located.map Prod.snd = entry.2.walk := by
      intro entry hentry
      exact ih entry.2 (map_snd_steps tree ▸ List.mem_map_of_mem hentry)
    rw [located_eq, walk_eq, ← map_snd_steps, List.map_cons, List.map_flatMap, List.flatMap_map]
    congr 1
    refine List.flatMap_congr fun entry hentry ↦ ?_
    rw [List.map_map, ← hchild entry hentry]
    rfl

theorem mem_located : (position, node) ∈ tree.located ↔ tree.at? position = some node := by
  induction position generalizing tree with
  | nil =>
    rw [located_eq]
    simp [at?, eq_comm]
  | cons step position ih =>
    rw [located_eq, at?, Option.bind_eq_some_iff]
    simp [← ih, ← mem_steps]

theorem map_fst_located (tree : Node) : tree.located.map Prod.fst =
    [] :: tree.steps.flatMap fun entry ↦ (entry.2.located.map Prod.fst).map (entry.1 :: ·) := by
  rw [located_eq, List.map_cons, List.map_flatMap]
  simp only [List.map_map, Function.comp_def]

/-- No position comes behind one below it. -/
theorem pairwise_located (tree : Node) :
    (tree.located.map Prod.fst).Pairwise fun earlier later ↦ ¬ later <+: earlier := by
  induction tree using induction_on_children with
  | step tree ih =>
    have hsteps : tree.steps.Pairwise fun first second ↦ first.1 ≠ second.1 :=
      List.pairwise_map.mp (nodup_steps tree)
    rw [map_fst_located, List.pairwise_cons, List.pairwise_flatMap]
    refine ⟨?_, ?_, hsteps.imp ?_⟩
    -- the root is above all others
    · intro position hposition
      obtain ⟨entry, -, hposition⟩ := List.mem_flatMap.mp hposition
      obtain ⟨rest, -, rfl⟩ := List.mem_map.mp hposition
      simp
    -- two positions below one child begin with the same step
    · intro entry hentry
      have hchild := ih entry.2 (map_snd_steps tree ▸ List.mem_map_of_mem hentry)
      refine List.pairwise_map.mpr (hchild.imp ?_)
      intro earlier later hnot
      rwa [List.cons_prefix_cons, and_iff_right rfl]
    -- below two children they begin with different ones
    · intro first second hne earlier hearlier later hlater
      obtain ⟨_, -, rfl⟩ := List.mem_map.mp hearlier
      obtain ⟨_, -, rfl⟩ := List.mem_map.mp hlater
      rw [List.cons_prefix_cons]
      exact fun hprefix ↦ hne hprefix.1.symm

/-- Walking with a stack comes to an end and gives the preorder of a tree. In this order every
position of the tree is visited, and none twice or behind one that is below it. -/
theorem walk_visits_positions (tree : Node) :
    (∀ nodes, Yields [tree] nodes ↔ nodes = tree.walk) ∧
    tree.walk = tree.preorder ∧
    ∃ positions : List Position,
      positions.map tree.at? = tree.walk.map some ∧
      (∀ position, position ∈ positions ↔ (tree.at? position).isSome) ∧
      positions.Nodup ∧
      positions.Pairwise fun earlier later ↦ ¬ later <+: earlier := by
  refine ⟨?_, walk_eq_preorder tree, tree.located.map Prod.fst, ?_, ?_, ?_, pairwise_located tree⟩
  · intro nodes
    rw [yields_iff, walk_eq_preorder]
    simp
  · rw [← map_snd_located, List.map_map, List.map_map]
    exact List.map_congr_left fun entry hentry ↦ mem_located.mp hentry
  · intro position
    rw [Option.isSome_iff_exists]
    simp [mem_located]
  · refine (pairwise_located tree).imp ?_
    rintro earlier _ hnot rfl
    exact hnot List.prefix_rfl

end Node

end SpecWording.Syntax
