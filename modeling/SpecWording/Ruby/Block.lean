import SpecWording.Ruby.Number
import SpecWording.Ruby.Heredoc

/-!
# Parameters and blocks

A block is written in braces or between `do` and `end`. Only the latter may rescue, so its body is
a node of another kind. A body covers the line break or semicolon that ends its last statement, and
comments in front of the first statement stay outside.
-/

namespace SpecWording.Ruby

open Ruby.Parser

namespace Grammar

/-- A name behind a sign, which may be missing. -/
def signedParameter (kind : String) (sign : String) : Parser Tree := do
  let start ← position
  literal sign
  let name ← optional (token "identifier" plainWord)
  close kind start name.toList

/-- A name with a colon, and perhaps with a default value. -/
def keywordParameter (g : Grammar) (ctx : Context) (floor : Nat) : Parser Tree := do
  let start ← position
  let name ← token "identifier" plainWord
  char ':'
  check ((← rest).head? != some ':')
  let value ← optional do g.space ctx; g.operation ctx.operand floor
  close "keyword_parameter" start (name :: value.toList)

/-- A name, perhaps with a default value behind an equals sign. -/
def plainParameter (g : Grammar) (ctx : Context) (floor : Nat) : Parser Tree := do
  let name ← token "identifier" plainWord
  let value ← optional do g.space ctx; char '='; g.layout; g.operation ctx.operand floor
  match value with
  | some value => close "optional_parameter" name.start [name, value]
  | _ => return name

/-- A parameter without parentheses; operators in default values bind as tightly as stated. -/
def simpleParameter (g : Grammar) (ctx : Context) (floor : Nat) : Parser Tree :=
  token "forward_parameter" (literal "...")
    <|> token "hash_splat_nil" (do literal "**nil"; check (!(← rest).head?.any isWordChar))
    <|> signedParameter "hash_splat_parameter" "**"
    <|> signedParameter "splat_parameter" "*"
    <|> signedParameter "block_parameter" "&"
    <|> g.keywordParameter ctx floor
    <|> g.plainParameter ctx floor

/-- Parameters in parentheses, which may nest. -/
def parameters (g : Grammar) (kind : String) : Nat → Parser Tree
  | 0 => failure
  | depth + 1 => do
    let start ← position
    char '('
    g.layout
    let trees ← g.commaSeparated .bracket
      (g.parameters "destructured_parameter" depth <|> g.simpleParameter .bracket 0) <|> pure []
    g.layout
    char ')'
    close kind start trees

/-- Parameters that only the end of the line or a block ends. -/
def bareParameters (g : Grammar) (kind : String) : Parser Tree := do
  let start ← position
  let trees ← g.commaSeparated .single
    (g.parameters "destructured_parameter" g.budget <|> g.simpleParameter .single 0)
  close kind start trees

/-- The names behind a semicolon are local to the block. -/
def blockLocals (g : Grammar) : Parser (List Tree) := do
  g.layout
  char ';'
  g.layout
  g.commaSeparated .bracket (token "identifier" plainWord)

/-- Parameters between bars; a bar does not belong to a default value. -/
def blockParameters (g : Grammar) : Parser Tree := do
  let start ← position
  char '|'
  g.layout
  let trees ← g.commaSeparated .bracket
    (g.parameters "destructured_parameter" g.budget <|> g.simpleParameter .bracket 51) <|> pure []
  let _ ← optional do g.layout; char ','
  let names ← g.blockLocals <|> pure []
  g.layout
  char '|'
  close "block_parameters" start (trees ++ names)

/-- Statements as a node of their own; there has to be one. -/
def group (g : Grammar) (kind : String) : Parser Tree := do
  let start ← position
  close kind start (← g.statements)

/-- A word with the statements behind it. -/
def clause (g : Grammar) (name : String) : Parser Tree := do
  let start ← position
  keyword name
  let _ ← optional g.terminator
  let trees ← (do g.layout; g.statements) <|> pure []
  close name start trees

/-- The word `then` with the statements behind it, after what may have ended the line. -/
def thenWord (g : Grammar) (ended : Option Nat) : Parser Tree := do
  g.layout
  let start ← position
  keyword "then"
  let trees ← (do g.layout; g.statements) <|> pure []
  close "then" (ended.getD start) trees

/-- The statements behind a condition, if there are any. -/
def thenClause (g : Grammar) : Parser (Option Tree) := do
  let ended ← optional g.terminator
  (do return some (← g.thenWord ended)) <|> do
    let some start := ended | failure
    optional do
      let trees ← (do g.layout; g.statements)
      close "then" start trees

/-- The exceptions that a clause rescues. -/
def exceptions (g : Grammar) : Parser Tree := do
  let start ← position
  let trees ← g.commaSeparated .single do
    let start ← position
    match ← optional (char '*') with
    | some () => close "splat_argument" start [← g.operation Context.single.operand 0]
    | none => g.operation Context.single.operand 0
  close "exceptions" start trees

def exceptionVariable (g : Grammar) : Parser Tree := do
  let start ← position
  literal "=>"
  g.blanks
  close "exception_variable" start [← g.primary Context.single.operand]

def rescueClause (g : Grammar) : Parser Tree := do
  let start ← position
  keyword "rescue"
  let caught ← optional do g.blanks; g.exceptions
  let name ← optional do g.blanks; g.exceptionVariable
  let trees ← g.thenClause
  close "rescue" start (caught.toList ++ name.toList ++ trees.toList)

/-- Statements with clauses for what happens after them; there has to be one of either. -/
def guarded (g : Grammar) : Parser (List Tree) := do
  let trees ← g.statements <|> pure []
  let clauses ← g.many do
    g.layout
    g.rescueClause <|> g.clause "else" <|> g.clause "ensure"
  check (!trees.isEmpty || !clauses.isEmpty)
  return trees ++ clauses

/-- Statements with their clauses as a node of their own. -/
def guardedBody (g : Grammar) : Parser Tree := do
  let start ← position
  close "body_statement" start (← g.guarded)

/-- What stands between a heading and its `end`. -/
def definitionBody (g : Grammar) : Parser (Option Tree) := do
  let _ ← optional g.terminator
  let body ← optional do g.layout; g.guardedBody
  g.layout
  keyword "end"
  return body

def braceBlock (g : Grammar) : Parser Tree := do
  let start ← position
  char '{'
  let parameters ← optional do g.layout; g.blockParameters
  let body ← optional do g.layout; g.group "block_body"
  g.layout
  char '}'
  close "block" start (parameters.toList ++ body.toList)

def doBlock (g : Grammar) : Parser Tree := do
  let start ← position
  keyword "do"
  let parameters ← optional do g.layout; g.blockParameters
  let body ← g.definitionBody
  close "do_block" start (parameters.toList ++ body.toList)

/-- The block of a call, on the line on which the call ends. -/
def blockAfter (g : Grammar) (ctx : Context) : Parser Tree := do
  g.blanks
  g.braceBlock <|> do
    check (!ctx.yieldsDo)
    g.doBlock

end Grammar

end SpecWording.Ruby
