import SpecWording.Ruby.Pattern

/-!
# Control structures

Conditions, loops, choices and rescues, from their keyword to their `end`, and the keywords that
leave a block or a loop and may take values with them.
-/

namespace SpecWording.Ruby

open Ruby.Parser

namespace Grammar

/-- A condition behind a keyword. -/
def condition (g : Grammar) (ctx : Context) : Parser Tree := do
  g.layout
  g.expression ctx

/-- What is done if no condition before it holds. -/
def alternative (g : Grammar) : Nat → Parser Tree
  | 0 => failure
  | depth + 1 => g.clause "else" <|> do
    let start ← position
    keyword "elsif"
    let test ← g.condition .single
    let trees ← g.thenClause
    let other ← optional do g.layout; g.alternative depth
    close "elsif" start (test :: trees.toList ++ other.toList)

def conditional (g : Grammar) (name : String) : Parser Tree := do
  let start ← position
  keyword name
  let test ← g.condition .single
  let trees ← g.thenClause
  let other ← optional do g.layout; g.alternative g.budget
  g.layout
  keyword "end"
  close name start (test :: trees.toList ++ other.toList)

/-- The body of a loop, from the end of its line or a `do` to its `end`. -/
def loopBody (g : Grammar) : Parser Tree := do
  let start ← (do g.blanks; let start ← position; keyword "do"; return start) <|> g.terminator
  let _ ← optional do g.blanks; char ';'
  let trees ← (do g.layout; g.statements) <|> pure []
  g.layout
  keyword "end"
  close "do" start trees

def loop (g : Grammar) (name : String) : Parser Tree := do
  let start ← position
  keyword name
  let test ← g.condition .loop
  close name start [test, ← g.loopBody]

/-- Something that can be assigned to, behind a star if it takes all the rest. -/
def leftItem (g : Grammar) : Nat → Parser Tree
  | 0 => failure
  | depth + 1 => do
    let start ← position
    match ← rest with
    | '*' :: _ => do
      skip 1
      let target ← optional (g.primary Context.single.operand)
      close "rest_assignment" start target.toList
    | '(' :: _ => do
      skip 1
      g.layout
      let trees ← g.commaSeparated .bracket (g.leftItem depth)
      g.layout
      char ')'
      close "destructured_left_assignment" start trees
    | _ => g.primary Context.single.operand

/-- Several targets, of which the last may be missing. -/
def leftItems (g : Grammar) : Parser Tree := do
  let start ← position
  let trees ← g.commaSeparated .single (g.leftItem g.budget)
  let _ ← optional do g.blanks; char ','
  close "left_assignment_list" start trees

/-- One target, or a list of them. -/
def loopTarget (g : Grammar) : Parser Tree := do
  let targets ← g.leftItems
  match targets.children with
  | [target] => return if target.kind == "rest_assignment" then targets else target
  | _ => return targets

def forLoop (g : Grammar) : Parser Tree := do
  let start ← position
  keyword "for"
  g.layout
  let target ← g.loopTarget
  g.blanks
  let values ← do
    let start ← position
    keyword "in"
    close "in" start [← g.condition .loop]
  close "for" start [target, values, ← g.loopBody]

/-- A value that a choice compares with. -/
def pattern (g : Grammar) : Parser Tree := do
  let start ← position
  match ← optional (char '*') with
  | some () => do
    let value ← g.operation Context.single.operand 0
    close "pattern" start [← close "splat_argument" start [value]]
  | none => close "pattern" start [← g.operation Context.single.operand 0]

def whenClause (g : Grammar) : Parser Tree := do
  let start ← position
  keyword "when"
  g.layout
  let patterns ← g.commaSeparated .single g.pattern
  let trees ← g.thenClause
  close "when" start (patterns ++ trees.toList)

/-- A condition that has to hold besides the pattern. -/
def guardClause (g : Grammar) : Parser Tree := do
  g.blanks
  let start ← position
  let word ← keywordOf ["if", "unless"]
  close (word ++ "_guard") start [← g.condition .single]

def inClause (g : Grammar) : Parser Tree := do
  let start ← position
  keyword "in"
  g.layout
  let pattern ← g.wholePattern
  let test ← optional g.guardClause
  let trees ← g.thenClause
  close "in_clause" start (pattern :: test.toList ++ trees.toList)

/-- The rest of a choice behind its value: clauses of one kind, and one for everything else. -/
def clauses (g : Grammar) (kind : String) (start : Nat) (value : Option Tree)
    (item : Parser Tree) : Parser Tree := do
  let trees ← g.many do g.layout; item
  check (!trees.isEmpty)
  let other ← optional do g.layout; g.clause "else"
  g.layout
  keyword "end"
  close kind start (value.toList ++ trees ++ other.toList)

def choice (g : Grammar) : Parser Tree := do
  let start ← position
  keyword "case"
  let value ← optional do g.blanks; g.expression { Context.single with matchable := false }
  let _ ← optional g.terminator
  g.clauses "case" start value g.whenClause <|> g.clauses "case_match" start value g.inClause

/-- Statements with their clauses, without a node of their own. -/
def guardedBlock (g : Grammar) : Parser Tree := do
  let start ← position
  keyword "begin"
  let _ ← optional g.terminator
  let trees ← (do g.layout; g.guarded) <|> pure []
  g.layout
  keyword "end"
  close "begin" start trees

/-- A keyword that takes values with it, in parentheses or behind a blank. -/
def leaving (g : Grammar) (ctx : Context) (name : String) : Parser Tree := do
  let start ← position
  keyword name
  let values ← optional (g.parenthesized <|> do
    let word ← position
    g.blanks
    let start ← position
    let cs ← rest
    check (beginsArgument (word != start) cs || cs.head? == some '{')
    let ctx := { ctx.command with yieldsDo := ctx.yieldsDo }
    close "argument_list" start (← g.commaSeparated ctx (g.argument ctx)))
  close name start values.toList

/-- The construct that a keyword begins. -/
def controlled (g : Grammar) (ctx : Context) (word : String) : Parser Tree :=
  match word with
  | "if" | "unless" => g.conditional word
  | "while" | "until" => g.loop word
  | "for" => g.forLoop
  | "case" => g.choice
  | "begin" => g.guardedBlock
  | "return" | "break" | "next" | "yield" => g.leaving ctx word
  | "redo" | "retry" => token word (keyword word)
  | _ => failure

end Grammar

end SpecWording.Ruby
