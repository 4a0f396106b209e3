import SpecWording.Ruby.Operand

/-!
# Operations

Operators join operands by how tightly they bind. Of two that bind equally the left one goes first,
except for powers, comparisons and conditions. An operator with an equals sign behind it would be an
assignment and is none of these.
-/

namespace SpecWording.Ruby

open Ruby.Parser

/-- An operator between two operands. -/
structure Operator where
  sign : String
  strength : Nat
  /-- Of several in a row the last one goes first. -/
  rightmost : Bool

/-- All operators, each after those that begin with its sign. -/
def operators : List Operator :=
  [⟨"**", 80, true⟩, ⟨"===", 40, true⟩, ⟨"==", 40, true⟩, ⟨"=~", 40, true⟩, ⟨"!=", 40, true⟩,
    ⟨"!~", 40, true⟩, ⟨"<=>", 40, true⟩, ⟨"<<", 60, false⟩, ⟨">>", 60, false⟩, ⟨"<=", 45, false⟩,
    ⟨">=", 45, false⟩, ⟨"<", 45, false⟩, ⟨">", 45, false⟩, ⟨"&&", 35, false⟩, ⟨"||", 30, false⟩,
    ⟨"&", 55, false⟩, ⟨"|", 50, false⟩, ⟨"^", 50, false⟩, ⟨"+", 65, false⟩, ⟨"-", 65, false⟩,
    ⟨"*", 70, false⟩, ⟨"/", 70, false⟩, ⟨"%", 70, false⟩]

/-- Whether an operator would be an assignment with an equals sign behind it. -/
def Operator.assigns (operator : Operator) : Bool :=
  Grammar.combinedAssignments.contains (operator.sign ++ "=")

namespace Grammar

/-- The next operator, if it binds at least as tightly as stated. -/
def operatorSign (floor : Nat) : Parser Operator := do
  let cs ← rest
  match operators.find? fun operator => operator.sign.toList.isPrefixOf cs with
  | some operator => do
    check (floor ≤ operator.strength)
    skip operator.sign.length
    let next := (← rest).head?
    check (!(operator.assigns && next == some '=') && !(operator.sign == "&" && next == some '.'))
    return operator
  | none => failure

def binary (g : Grammar) (ctx : Context) (floor : Nat) (left : Tree) : Parser Tree := do
  let operator ← operatorSign floor
  g.layout
  let floor := if operator.rightmost then operator.strength else operator.strength + 1
  close "binary" left.start [left, ← g.operation ctx.operand floor]

/-- A range, whose upper end may be missing. -/
def range (g : Grammar) (ctx : Context) (floor : Nat) (left : Tree) : Parser Tree := do
  check (floor ≤ 25)
  literal "..." <|> literal ".."
  let right ← optional do g.blanks; g.operation ctx.operand 26
  close "range" left.start (left :: right.toList)

/-- A choice between two values. -/
def ternary (g : Grammar) (ctx : Context) (floor : Nat) (test : Tree) : Parser Tree := do
  check (floor ≤ 20)
  char '?'
  g.layout
  let yes ← g.operation ctx.operand 20
  g.layout
  char ':'
  g.layout
  close "conditional" test.start [test, yes, ← g.operation ctx.operand 20]

/-- An operand with the operators behind it. -/
def operationWith (g : Grammar) (ctx : Context) (floor : Nat) : Parser Tree := do
  let first ← g.operand ctx
  iterated (fun left => do
    g.space ctx
    g.binary ctx floor left <|> g.range ctx floor left <|> g.ternary ctx floor left) g.budget first

/-- An operation, which may be matched against a pattern behind it. -/
def matched (g : Grammar) (ctx : Context) : Parser Tree := do
  let value ← g.operation ctx 0
  let tested : Parser Tree := do
    check ctx.matchable
    g.space ctx
    let kind ← (do literal "=>"; return "match_pattern") <|> do keyword "in"; return "test_pattern"
    g.layout
    close kind value.start [value, ← g.wholePattern]
  tested <|> pure value

/-- Operations joined by `and` and `or`, from left to right. -/
def expressionWith (g : Grammar) (ctx : Context) : Parser Tree := do
  let first ← g.matched ctx
  iterated (fun left => do
    g.space ctx
    let _ ← keywordOf ["and", "or"]
    g.layout
    close "binary" left.start [left, ← g.matched { ctx with multiple := false }]) g.budget first

end Grammar

end SpecWording.Ruby
