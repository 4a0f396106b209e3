/-!
# The syntax tree that rules look at

A small tree of what matters for wording: calls, calls with a block, string literals and symbols.
All else is an `other` node that keeps its kind and its children, so that examples nested anywhere
are still reached. Ranges count bytes and come from whoever built the tree; nothing here assumes
that they fit a text or are in order. A `Language` turns texts into such trees.
-/

namespace SpecWording.Syntax

/-- Two byte offsets as a parser reported them, in any order and of any size. -/
structure ByteRange where
  start : Nat
  stop : Nat
  deriving DecidableEq, Repr, Inhabited

/-- A method call; `Arg` is the type of its receiver and arguments. -/
structure Call (Arg : Type) where
  receiver : Option Arg
  method : String
  arguments : List Arg
  range : ByteRange
  deriving DecidableEq, Repr, Inhabited

inductive Node where
  /-- A call with a block; the range covers the block too. -/
  | block (invocation : Call Node) (body : List Node) (range : ByteRange)
  | call (invocation : Call Node)
  /-- A quoted string literal without interpolation; the value keeps escapes as written. -/
  | str (value : String) (range : ByteRange)
  | interpolated (parts : List Node) (range : ByteRange)
  | symbol (range : ByteRange)
  | other (kind : String) (children : List Node) (range : ByteRange)
  deriving Repr, Inhabited

namespace Node

def range : Node → ByteRange
  | block _ _ range => range
  | call invocation => invocation.range
  | str _ range => range
  | interpolated _ range => range
  | symbol range => range
  | other _ _ range => range

/-- The nodes directly below a node, in the order in which they are visited. -/
def children : Node → List Node
  | block invocation body _ => invocation.receiver.toList ++ invocation.arguments ++ body
  | call invocation => invocation.receiver.toList ++ invocation.arguments
  | str .. => []
  | interpolated parts _ => parts
  | symbol .. => []
  | other _ children _ => children

end Node

end SpecWording.Syntax

namespace SpecWording

/-- A language says which files are its own and turns a text into a tree, or says why it cannot. -/
structure Language where
  name : String
  /-- The extensions of the language's files, without the period. -/
  extensions : List String
  parse : String → Except String Syntax.Node

end SpecWording
