import SpecWording.Syntax.Node

/-!
# Visiting every node of a tree

`Node.preorder` is the order by recursion: a node, then each child's own order. `Node.walk` is the
order by a list of pending nodes, which needs no recursion into the tree and is what runs.
-/

namespace SpecWording.Syntax

namespace Node

mutual

/-- The number of nodes of a tree. -/
def count : Node → Nat
  | block ⟨receiver, _, arguments, _⟩ body _ =>
    1 + countOption receiver + countAll arguments + countAll body
  | call ⟨receiver, _, arguments, _⟩ => 1 + countOption receiver + countAll arguments
  | str .. => 1
  | interpolated parts _ => 1 + countAll parts
  | symbol .. => 1
  | other _ children _ => 1 + countAll children

def countOption : Option Node → Nat
  | none => 0
  | some node => node.count

def countAll : List Node → Nat
  | [] => 0
  | node :: nodes => node.count + countAll nodes

end

@[simp] theorem countAll_nil : countAll [] = 0 := by simp [countAll]

@[simp] theorem countAll_cons (node : Node) (nodes : List Node) :
    countAll (node :: nodes) = node.count + countAll nodes := by simp [countAll]

@[simp] theorem countAll_append (xs ys : List Node) :
    countAll (xs ++ ys) = countAll xs + countAll ys := by
  induction xs with
  | nil => simp
  | cons node nodes ih => simp [ih, Nat.add_assoc]

theorem countAll_toList (receiver : Option Node) :
    countAll receiver.toList = countOption receiver := by
  cases receiver <;> simp [countOption]

/-- A node is counted once, and every other count belongs to one of its children. -/
theorem count_eq (node : Node) : node.count = 1 + countAll node.children := by
  cases node with
  | block invocation body range => simp [count, children, countAll_toList, Nat.add_assoc]
  | call invocation => simp [count, children, countAll_toList, Nat.add_assoc]
  | _ => simp [count, children]

mutual

/-- A node followed by the orders of its receiver, its arguments and its body, or of its parts. -/
def preorder : Node → List Node
  | node@(block ⟨receiver, _, arguments, _⟩ body _) =>
    node :: (preorderOption receiver ++ preorderAll arguments ++ preorderAll body)
  | node@(call ⟨receiver, _, arguments, _⟩) =>
    node :: (preorderOption receiver ++ preorderAll arguments)
  | node@(str ..) => [node]
  | node@(interpolated parts _) => node :: preorderAll parts
  | node@(symbol ..) => [node]
  | node@(other _ children _) => node :: preorderAll children

def preorderOption : Option Node → List Node
  | none => []
  | some node => node.preorder

def preorderAll : List Node → List Node
  | [] => []
  | node :: nodes => node.preorder ++ preorderAll nodes

end

/-- Visits the first pending node and puts its children before the others. -/
def visit : List Node → List Node
  | [] => []
  | node :: pending => node :: visit (node.children ++ pending)
termination_by pending => countAll pending
decreasing_by simp [count_eq]

def walk (node : Node) : List Node := visit [node]

end Node

end SpecWording.Syntax
