import SpecWording.Ruby.Operation

/-!
# Statements

A statement is an expression, an assignment to several targets, or one of a few constructs that
have no value, and conditions may stand behind it. Line breaks and semicolons separate statements,
and a semicolon without a statement in front of it counts as one.
-/

namespace SpecWording.Ruby

open Ruby.Parser

/-- Whether a text assigns to several targets: its first equals sign outside of brackets stands
behind a comma, a star or a list in parentheses, with nothing but targets in front. -/
def assignsSeveral : Nat → Bool → List Char → Bool
  | depth, several, '=' :: cs =>
    depth == 0 && several && !cs.head?.any fun c => c == '=' || c == '~' || c == '>'
  | depth, several, c :: cs =>
    if c == '(' || c == '[' then assignsSeveral (depth + 1) several cs
    else if c == ')' || c == ']' then depth != 0 && assignsSeveral (depth - 1) several cs
    else if c == ',' then assignsSeveral depth (several || depth == 0) cs
    else (isWordChar c || isBlank c || ['@', '$', '*', '.', ':', '&'].contains c)
      && assignsSeveral depth several cs
  | _, _, [] => false

namespace Grammar

def severalAssigned (g : Grammar) : Parser Tree := do
  let cs ← rest
  check (assignsSeveral 0 (cs.head?.any fun c => c == '*' || c == '(') cs)
  let targets ← g.leftItems
  g.blanks
  equalsSign
  close "assignment" targets.start [targets, ← g.assignedValues .statement]

/-- A second name for a method. -/
def aliased (g : Grammar) : Parser Tree := do
  let start ← position
  keyword "alias"
  g.blanks
  let name ← g.mentionedName
  g.blanks
  close "alias" start [name, ← g.mentionedName]

def undefined (g : Grammar) : Parser Tree := do
  let start ← position
  keyword "undef"
  g.blanks
  close "undef" start (← g.commaSeparated .single g.mentionedName)

/-- Statements in braces that run before or after all others. -/
def framed (g : Grammar) (word kind : String) : Parser Tree := do
  let start ← position
  keyword word
  g.layout
  char '{'
  let trees ← g.inner
  char '}'
  close kind start trees

/-- A statement without what may stand behind it. -/
def simpleStatement (g : Grammar) : Parser Tree := do
  match ← nextWord with
  | "alias" => g.aliased
  | "undef" => g.undefined
  | "BEGIN" => g.framed "BEGIN" "begin_block"
  | "END" => g.framed "END" "end_block"
  | "__END__" => failure
  | _ => g.severalAssigned <|> g.expression .statement

/-- A condition, a loop or a rescue behind a statement. -/
def modified (g : Grammar) (tree : Tree) : Parser Tree := do
  g.blanks
  let word ← keywordOf ["if", "unless", "while", "until", "rescue"]
  g.layout
  close (word ++ "_modifier") tree.start [tree, ← g.expression .single]

def statement (g : Grammar) : Parser Tree := do
  let first ← g.simpleStatement
  iterated g.modified g.budget first

/-- A statement, and whether something ended it. -/
def endedStatement (g : Grammar) : Parser (Tree × Bool) :=
  (do return (← token "empty_statement" (char ';'), true)) <|> do
    let tree ← g.statement
    return (tree, (← optional g.terminator).isSome)

/-- Statements as long as each one is ended before the next. -/
def statementsWithin (g : Grammar) : Nat → Parser (List Tree)
  | 0 => failure
  | budget + 1 => do
    let (tree, ended) ← g.endedStatement
    if ended then
      let more ← (do g.layout; g.statementsWithin budget) <|> pure []
      return tree :: more
    else return [tree]

end Grammar

/-- The grammar for texts whose constructs nest and repeat no more often than stated. -/
def grammar : Nat → Grammar
  | 0 => .empty
  | budget + 1 =>
    { budget
      readBody := fun cursor => (grammar budget).heredocBody cursor
      statements := fun cursor => (grammar budget).statementsWithin budget cursor
      expression := fun ctx cursor => (grammar budget).expressionWith ctx cursor
      operation := fun ctx floor cursor => (grammar budget).operationWith ctx floor cursor
      primary := fun ctx cursor => (grammar budget).primaryWith ctx cursor }

end SpecWording.Ruby
