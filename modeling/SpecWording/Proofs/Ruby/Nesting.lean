import SpecWording.Proofs.Ruby.Lowering
import SpecWording.Proofs.Syntax.SourceOrder
import SpecWording.Ruby.Program

/-!
# Lowered trees follow their source

A parser's concrete tree nests: children lie inside their parent, one behind the other, and the parts
of a call come in their fixed order. Lowering keeps this. It drops comments, and a call takes over
what stands below its arguments and its block, which are themselves apart; the call alone ends
before its block, but not before its receiver or its arguments.
-/

namespace SpecWording.Ruby

open Syntax (ByteRange)

namespace Role

/-- The place of a call's part among its parts. -/
def rank? : Role → Option Nat
  | child => none
  | receiver => some 0
  | method => some 1
  | arguments => some 2
  | block => some 3

end Role

namespace Tree

/-- Whether a tree ends before another one starts, and may do so as a part of the same call. -/
def Precedes (first second : Tree) : Prop :=
  first.stop ≤ second.start ∧
    ∀ a ∈ first.role.rank?, ∀ b ∈ second.role.rank?, a ≤ b

instance (first second : Tree) : Decidable (first.Precedes second) :=
  inferInstanceAs (Decidable (_ ∧ _))

mutual

/-- Whether ranges are in order, children lie inside their parent, and siblings stand one behind the
other. -/
def isNested : Tree → Bool
  | ⟨_, _, range, children⟩ =>
    decide (range.start ≤ range.stop) && children.all (decide <| ·.range.Within range) &&
      decide (children.Pairwise Precedes) && areNested children

def areNested : List Tree → Bool
  | [] => true
  | tree :: trees => tree.isNested && areNested trees

end

/-- A tree that ends no earlier than it starts and has its children in their order inside. If it is
a call, then its parts come in their order too. -/
structure FramesChildren (tree : Tree) : Prop where
  ordered : tree.start ≤ tree.stop
  framed : tree.range.Frames (tree.children.map range)
  parts : tree.kind = "call" → tree.children.Pairwise fun first second ↦
    ∀ a ∈ first.role.rank?, ∀ b ∈ second.role.rank?, a ≤ b

/-- Every part of the tree frames its children. -/
def InOrder (tree : Tree) : Prop := ∀ part : Tree, part.IsPartOf tree → part.FramesChildren

variable {tree part other child : Tree} {role role' : Role}

theorem areNested_iff {trees : List Tree} :
    areNested trees = true ↔ ∀ tree ∈ trees, tree.isNested = true := by
  induction trees with
  | nil => simp [areNested]
  | cons tree trees ih => simp [areNested, ih]

theorem isNested_iff : tree.isNested = true ↔ tree.start ≤ tree.stop ∧
    (∀ child ∈ tree.children, child.range.Within tree.range) ∧
    tree.children.Pairwise Precedes ∧ ∀ child ∈ tree.children, child.isNested = true := by
  obtain ⟨kind, role, range, children⟩ := tree
  simp only [isNested, Bool.and_eq_true, decide_eq_true_eq, List.all_eq_true, areNested_iff,
    and_assoc]
  rfl

theorem isNested_of_isPartOf (h : tree.isNested = true) (hpart : part.IsPartOf tree) :
    part.isNested = true := by
  induction hpart with
  | self => exact h
  | child hchild _ ih => exact ih ((isNested_iff.mp h).2.2.2 _ hchild)

theorem inOrder_of_isNested (h : tree.isNested = true) : tree.InOrder := by
  intro part hpart
  obtain ⟨hordered, hwithin, hprecedes, -⟩ := isNested_iff.mp (isNested_of_isPartOf h hpart)
  refine ⟨hordered, ⟨?_, List.pairwise_map.mpr (hprecedes.imp And.left)⟩,
    fun _ ↦ hprecedes.imp And.right⟩
  simpa using hwithin

/-! ## The parts of a call -/

/-- The invocation ends with the call or with a part that comes after the receiver. -/
theorem invocation_stop_cases (tree : Tree) : tree.invocation.stop = tree.stop ∨
    ∃ role part a, tree.part? role = some part ∧ role.rank? = some a ∧ 0 < a ∧
      tree.invocation.stop = part.stop := by
  unfold invocation
  cases harguments : tree.part? .arguments with
  | some part => exact .inr ⟨.arguments, part, 2, harguments, rfl, by decide, rfl⟩
  | none =>
    cases hmethod : tree.part? .method with
    | some part => exact .inr ⟨.method, part, 1, hmethod, rfl, by decide, rfl⟩
    | none => exact .inl rfl

namespace InOrder

theorem of_isPartOf (h : tree.InOrder) (hpart : part.IsPartOf tree) : part.InOrder :=
  fun _ hother ↦ h _ (hother.trans hpart)

variable (h : tree.InOrder)

include h

theorem ordered : tree.start ≤ tree.stop := (h tree .self).ordered

theorem within_of_part? (hpart : tree.part? role = some part) :
    part.range.Within tree.range :=
  (h tree .self).framed.within _ (List.mem_map_of_mem (part?_eq_some hpart).1)

theorem ordered_of_part? (hpart : tree.part? role = some part) : part.start ≤ part.stop :=
  (h.of_isPartOf (isPartOf_of_part? hpart)).ordered

/-- Parts of a call stand one behind the other as their roles do. -/
theorem stop_le_start (hcall : tree.kind = "call") (hpart : tree.part? role = some part)
    (hother : tree.part? role' = some other) {a b : Nat} (ha : role.rank? = some a)
    (hb : role'.rank? = some b) (hlt : a < b) : part.stop ≤ other.start := by
  obtain ⟨hmem, rfl⟩ := part?_eq_some hpart
  obtain ⟨hmem', rfl⟩ := part?_eq_some hother
  have hne : part ≠ other := by
    rintro rfl
    rw [ha, Option.some.injEq] at hb
    omega
  have hframes := h tree .self
  have hpairs := (List.pairwise_map.mp hframes.framed.behind).and (hframes.parts hcall)
  have hsymm : Std.Symm fun first second : Tree ↦
      first.Precedes second ∨ second.Precedes first := ⟨fun _ _ ↦ Or.symm⟩
  have hprecedes : tree.children.Pairwise fun first second ↦
      first.Precedes second ∨ second.Precedes first := hpairs.imp Or.inl
  rcases hprecedes.forall hmem hmem' hne with hprecedes | hprecedes
  · exact hprecedes.1
  · have hle := hprecedes.2 b hb a ha
    omega

theorem invocation_within : tree.invocation.Within tree.range := by
  refine ⟨Nat.le_refl _, ?_⟩
  rcases invocation_stop_cases tree with hstop | ⟨role, part, a, hpart, -, -, hstop⟩
  · exact Nat.le_of_eq hstop
  · rw [hstop]
    exact (h.within_of_part? hpart).2

theorem invocation_ordered : tree.start ≤ tree.invocation.stop := by
  rcases invocation_stop_cases tree with hstop | ⟨role, part, a, hpart, -, -, hstop⟩
  · rw [hstop]
    exact h.ordered
  · rw [hstop]
    exact Nat.le_trans (h.within_of_part? hpart).1 (h.ordered_of_part? hpart)

theorem receiver_within (hcall : tree.kind = "call")
    (hpart : tree.part? .receiver = some part) : part.range.Within tree.invocation := by
  refine ⟨(h.within_of_part? hpart).1, ?_⟩
  rcases invocation_stop_cases tree with hstop | ⟨role, other, a, hother, ha, hlt, hstop⟩
  · rw [hstop]
    exact (h.within_of_part? hpart).2
  · rw [hstop]
    exact Nat.le_trans (h.stop_le_start hcall hpart hother rfl ha hlt) (h.ordered_of_part? hother)

theorem arguments_within (hpart : tree.part? .arguments = some part) :
    part.range.Within tree.invocation := by
  refine ⟨(h.within_of_part? hpart).1, ?_⟩
  rw [invocation, hpart]
  exact Nat.le_refl _

theorem frames_contents : tree.range.Frames (tree.contents.map range) :=
  (h tree .self).framed.sublist (List.filter_sublist.map range)

/-- What a call takes over from a part of it stays inside that part. -/
theorem within_part_of_mem_contentsOf (hchild : child ∈ tree.contentsOf role) :
    ∃ part, tree.part? role = some part ∧ child.range.Within part.range := by
  obtain ⟨part, hpart, hchild⟩ := Tree.exists_part?_of_mem_contentsOf hchild
  have hframes := (h.of_isPartOf (isPartOf_of_part? hpart)).frames_contents
  exact ⟨part, hpart, hframes.within _ (List.mem_map_of_mem hchild)⟩

theorem frames_contentsOf {outer : ByteRange}
    (houter : ∀ part, tree.part? role = some part → part.range.Within outer) :
    outer.Frames ((tree.contentsOf role).map range) := by
  unfold contentsOf
  cases hpart : tree.part? role with
  | none => exact .nil outer
  | some part =>
    exact (h.of_isPartOf (isPartOf_of_part? hpart)).frames_contents.mono (houter part hpart)

/-- What stands inside one part of a call ends before what stands inside a later one. -/
theorem stop_le_start_of_within (hcall : tree.kind = "call") {first second : Tree}
    (hfirst : ∃ part, tree.part? role = some part ∧ first.range.Within part.range)
    (hsecond : ∃ part, tree.part? role' = some part ∧ second.range.Within part.range) {a b : Nat}
    (ha : role.rank? = some a) (hb : role'.rank? = some b) (hlt : a < b) :
    first.stop ≤ second.start := by
  obtain ⟨part, hpart, hwithin⟩ := hfirst
  obtain ⟨other, hother, hwithin'⟩ := hsecond
  calc
    first.stop ≤ part.stop := hwithin.2
    _ ≤ other.start := h.stop_le_start hcall hpart hother ha hb hlt
    _ ≤ second.start := hwithin'.1

/-- The receiver and the arguments of a call stand inside the invocation. -/
theorem frames_operands (hcall : tree.kind = "call") :
    tree.invocation.Frames (tree.operands.map range) := by
  rw [operands, List.map_append]
  refine .append ?_ (h.frames_contentsOf fun part ↦ h.arguments_within) ?_
  · cases hpart : tree.part? .receiver with
    | none => exact .nil _
    | some part => exact .singleton (h.receiver_within hcall hpart)
  · simp only [List.forall_mem_map]
    intro first hfirst second hsecond
    exact h.stop_le_start_of_within hcall ⟨first, Option.mem_toList.mp hfirst, .refl _⟩
      (h.within_part_of_mem_contentsOf hsecond) rfl rfl (by decide)

/-- The body of a call stands behind the receiver and the arguments. -/
theorem frames_call (hcall : tree.kind = "call") :
    tree.range.Frames ((tree.operands ++ tree.contentsOf .block).map range) := by
  rw [List.map_append]
  refine ((h.frames_operands hcall).mono h.invocation_within).append
    (h.frames_contentsOf fun part ↦ h.within_of_part?) ?_
  simp only [List.forall_mem_map]
  intro first hfirst second hsecond
  have hblock := h.within_part_of_mem_contentsOf hsecond
  rcases List.mem_append.mp hfirst with hfirst | hfirst
  · exact h.stop_le_start_of_within hcall ⟨first, Option.mem_toList.mp hfirst, .refl _⟩ hblock
      rfl rfl (by decide)
  · exact h.stop_le_start_of_within hcall (h.within_part_of_mem_contentsOf hfirst) hblock
      rfl rfl (by decide)

/-! ## The node of a tree -/

theorem nodeRange_within : tree.nodeRange.Within tree.range := by
  unfold nodeRange
  split
  · exact h.invocation_within
  · exact .refl _

theorem nodeRange_ordered : tree.nodeRange.start ≤ tree.nodeRange.stop := by
  unfold nodeRange
  split
  · exact h.invocation_ordered
  · exact h.ordered

/-- Wherever a call's own node ends, it does not end before the invocation. -/
theorem invocation_within_nodeRange : tree.invocation.Within tree.nodeRange := by
  unfold nodeRange
  split
  · exact .refl _
  · exact h.invocation_within

theorem frames_absorbed : tree.nodeRange.Frames (tree.absorbed.map range) := by
  by_cases hcall : tree.kind = "call"
  · rw [absorbed_of_call hcall, nodeRange]
    cases hblock : tree.part? .block with
    | none =>
      have hbody : tree.contentsOf .block = [] := by rw [contentsOf, hblock]; rfl
      rw [hbody, List.append_nil, if_pos ⟨hcall, rfl⟩]
      exact h.frames_operands hcall
    | some block =>
      rw [if_neg fun hnone ↦ Bool.false_ne_true hnone.2]
      exact h.frames_call hcall
  · rw [nodeRange_of_not_call hcall]
    exact (h tree .self).framed.sublist ((absorbed_sublist hcall).map range)

theorem framesChildren_lower (source : String) : (tree.lower source).FramesChildren := by
  refine ⟨?_, ?_⟩
  · rw [range_lower]
    exact h.nodeRange_ordered
  · rw [range_lower, children_lower, List.map_map]
    refine h.frames_absorbed.shrink fun child hchild ↦ ?_
    rw [Function.comp_apply, range_lower]
    exact (h.of_isPartOf (isPartOf_of_mem_absorbed hchild)).nodeRange_within

/-- Lowering keeps the order of the source. -/
theorem lower (source : String) : (tree.lower source).InOrder := by
  intro node hnode
  obtain ⟨part, hpart, rfl⟩ := exists_part_of_mem_walk hnode
  exact (h.of_isPartOf hpart).framesChildren_lower source

end InOrder

end Tree

/-- Every node of a lowered tree has its children in their order inside its range, and from one node
of the walk to the next the start never decreases. Each node is that of a part of the tree, and its
range is the part's own, but for a call without a block: that ends with its arguments or its name.
A block also contains the invocation that it belongs to, which ends in the same way. -/
theorem lower_follows_source (source : String) {tree : Tree} (h : tree.InOrder) :
    (∀ node ∈ (tree.lower source).walk,
      node.range.start ≤ node.range.stop ∧
      (∀ child ∈ node.children, child.range.Within node.range) ∧
      node.children.Pairwise (fun first second ↦ first.range.stop ≤ second.range.start) ∧
      ∃ part : Tree, part.IsPartOf tree ∧ node = part.lower source ∧
        node.range = part.nodeRange ∧
        ∀ call ∈ node.invocation?,
          call.range = part.invocation ∧ call.range.Within node.range) ∧
    (tree.lower source).walk.Pairwise fun first second ↦
      first.range.start ≤ second.range.start := by
  have hlower := h.lower source
  refine ⟨fun node hnode ↦ ?_, hlower.pairwise_start_le⟩
  obtain ⟨hordered, hframed⟩ := hlower node hnode
  obtain ⟨part, hpart, hpartNode⟩ := Tree.exists_part_of_mem_walk hnode
  have hrange : node.range = part.nodeRange := hpartNode ▸ Tree.range_lower source part
  refine ⟨hordered, ?_, List.pairwise_map.mp hframed.behind, part, hpart, hpartNode, hrange, ?_⟩
  · intro child hchild
    exact hframed.within _ (List.mem_map_of_mem hchild)
  · intro call hcall
    have hinvocation := Tree.range_of_mem_invocation? (hpartNode ▸ hcall)
    rw [hinvocation, hrange]
    exact ⟨rfl, (h.of_isPartOf hpart).invocation_within_nodeRange⟩

/-- A chain of calls with a comment between arguments, a block and an interpolation. -/
def chainedText : String := "a(b).it('should c', # d\n  e) \x7b |f| g \"#\x7bh\x7d\" \x7d.i\n"

theorem lower_follows_source_chained : (parse chainedText).InOrder ∧
    ((parse chainedText).lower chainedText).walk.map (·.range.start) =
      [0, 0, 0, 0, 2, 8, 26, 31, 32, 35, 35, 37, 38, 40] ∧
    [0, 0, 0, 0, 2, 8, 26, 31, 32, 35, 35, 37, 38, 40].Pairwise (· ≤ ·) := by
  have hnested : (parse chainedText).isNested = true := by decide +kernel
  have hstarts : ((parse chainedText).lower chainedText).walk.map (·.range.start) =
      [0, 0, 0, 0, 2, 8, 26, 31, 32, 35, 35, 37, 38, 40] := by decide +kernel
  have hordered := Tree.inOrder_of_isNested hnested
  have hwalk := (lower_follows_source chainedText hordered).2
  exact ⟨hordered, hstarts, hstarts ▸ List.pairwise_map.mpr hwalk⟩

end SpecWording.Ruby
