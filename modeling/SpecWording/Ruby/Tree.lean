import SpecWording.Syntax.Node
import SpecWording.Text.Cuts

/-!
# Concrete trees of Ruby and their nodes

A concrete tree keeps every construct of a Ruby text under the name that grammars of Ruby give it,
with the bytes it covers; punctuation is not kept. The parts of a call are told apart by their role
and not by their place, for each of them may be missing.

Rules look at calls, blocks, strings and symbols, so those get nodes of their own and all else keeps
its kind. A call absorbs its argument list and its block: their children become its own arguments
and body. Comments are dropped.
-/

namespace SpecWording.Ruby

open Syntax (Node ByteRange)
open Text (Cuts)

/-- What a node is to the call right above it. -/
inductive Role where
  | child
  | receiver
  | method
  | arguments
  | block
  deriving DecidableEq, Repr

structure Tree where
  kind : String
  role : Role
  range : ByteRange
  children : List Tree
  deriving Repr

namespace Tree

def withRole (role : Role) (tree : Tree) : Tree := { tree with role }

def start (tree : Tree) : Nat := tree.range.start

def stop (tree : Tree) : Nat := tree.range.stop

end Tree

/-! ## From concrete trees to nodes -/

/-- A tree that was lowered, and the nodes of its children. -/
structure Lowered where
  tree : Tree
  node : Node
  parts : List Node

namespace Lowered

def isComment (part : Lowered) : Bool := part.tree.kind == "comment"

/-- The nodes of all trees but the comments. -/
def nodes (parts : List Lowered) : List Node :=
  (parts.filter fun part => !part.isComment).map node

/-- The first of several parts with a role. -/
def find? (parts : List Lowered) (role : Role) : Option Lowered :=
  parts.find? (·.tree.role == role)

end Lowered

/-- The text of a range, and nothing if the range does not fit. -/
def rangeText (cuts : Cuts) (range : ByteRange) : String :=
  (cuts.text? range.start range.stop).getD ""

/-- The invocation ends with its arguments, or with its name if it has none. -/
def lowerCall (cuts : Cuts) (range : ByteRange) (parts : List Lowered) : Node :=
  let method := Lowered.find? parts .method
  let arguments := Lowered.find? parts .arguments
  let stop := match arguments <|> method with
    | some part => part.tree.stop
    | none => range.stop
  let call : Syntax.Call Node :=
    { receiver := (Lowered.find? parts .receiver).map Lowered.node
      method := (method.map fun part => rangeText cuts part.tree.range).getD ""
      arguments := (arguments.map Lowered.parts).getD []
      range := ⟨range.start, stop⟩ }
  match Lowered.find? parts .block with
  | some block => .block call block.parts range
  | none => .call call

/-- Whether a quote stands at an offset. -/
def isQuoteAt (cuts : Cuts) (offset : Nat) : Bool :=
  cuts.charAt? offset == some '\'' || cuts.charAt? offset == some '"'

/-- A literal in quotes has as value what stands between them, with escapes as written. -/
def lowerString (cuts : Cuts) (range : ByteRange) (parts : List Lowered) : Node :=
  if parts.any (·.tree.kind == "interpolation") then
    .interpolated (parts.map Lowered.node) range
  else if isQuoteAt cuts range.start then
    .str (rangeText cuts ⟨range.start + 1, range.stop - 1⟩) range
  else .other "string" [] range

def lowerNode (cuts : Cuts) (tree : Tree) (parts : List Lowered) : Node :=
  match tree.kind with
  | "call" => lowerCall cuts tree.range parts
  | "string" => lowerString cuts tree.range parts
  | "simple_symbol" | "delimited_symbol" | "hash_key_symbol" => .symbol tree.range
  | kind => .other kind (Lowered.nodes parts) tree.range

mutual

def Tree.lowered (cuts : Cuts) : Tree → Lowered
  | ⟨kind, role, range, children⟩ =>
    let parts := Tree.loweredAll cuts children
    let tree : Tree := ⟨kind, role, range, children⟩
    ⟨tree, lowerNode cuts tree parts, Lowered.nodes parts⟩

def Tree.loweredAll (cuts : Cuts) : List Tree → List Lowered
  | [] => []
  | tree :: trees => tree.lowered cuts :: Tree.loweredAll cuts trees

end

/-- The node of a tree that was read from a source. -/
def Tree.lower (source : String) (tree : Tree) : Node := (tree.lowered (Cuts.ofText source)).node

end SpecWording.Ruby
