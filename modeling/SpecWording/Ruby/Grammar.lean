import SpecWording.Ruby.Layout

/-!
# The recursive part of the grammar

Constructs nest through few of them: statements, expressions and operations. Those are fields of a
record, so that every other construct is a plain definition over it and the recursion is closed in
one place. The budget bounds how often anything may repeat and how deep it may nest; whoever builds
the record picks one that no text exhausts.
-/

namespace SpecWording.Ruby

/-- What surrounds an expression. -/
structure Context where
  /-- Line breaks do not end it. -/
  bracketed : Bool
  /-- A `do` belongs to something further out. -/
  yieldsDo : Bool
  /-- Calls may take arguments without parentheses. -/
  commands : Bool
  /-- An assignment may have several values. -/
  multiple : Bool
  /-- A pattern may stand behind it. -/
  matchable : Bool

namespace Context

def statement : Context := ⟨false, false, true, true, true⟩

/-- A condition or a value behind a keyword. -/
def single : Context := { statement with multiple := false }

/-- What stands between the keyword of a loop and its `do`. -/
def loop : Context := { single with yieldsDo := true }

def bracket : Context := ⟨true, false, true, false, true⟩

/-- The arguments of a call without parentheses. -/
def command (ctx : Context) : Context :=
  { ctx with yieldsDo := true, commands := true, multiple := false }

/-- One side of an operator. -/
def operand (ctx : Context) : Context := { ctx with commands := false, multiple := false }

end Context

structure Grammar where
  budget : Nat
  /-- The body of the next here-document, at the line break before it. -/
  readBody : Parser Unit
  statements : Parser (List Tree)
  /-- Operations joined by the words for conjunction and disjunction. -/
  expression : Context → Parser Tree
  /-- An operand with all operators behind it that bind at least as tightly as stated. -/
  operation : Context → Nat → Parser Tree
  /-- An operand without signs, operators and assignments. -/
  primary : Context → Parser Tree

namespace Grammar

open Ruby.Parser

/-- The grammar that accepts nothing. -/
def empty : Grammar :=
  ⟨0, failure, failure, fun _ => failure, fun _ _ => failure, fun _ => failure⟩

def blanks (g : Grammar) : Parser Unit := Parser.blanks g.budget

def layout (g : Grammar) : Parser Unit := Parser.layout g.readBody g.budget

def lineBreak (g : Grammar) : Parser Unit := Parser.lineBreak g.readBody g.budget

def continuation (g : Grammar) : Parser Unit := Parser.continuation g.readBody g.budget

def space (g : Grammar) (ctx : Context) : Parser Unit := if ctx.bracketed then g.layout else g.blanks

/-- What ends a statement: a line break, which is not passed, or a semicolon. Says where it is. -/
def terminator (g : Grammar) : Parser Nat :=
  (do g.lineBreak; position) <|> do
    g.blanks
    let start ← position
    char ';'
    return start

def many {α : Type} (g : Grammar) (parser : Parser α) : Parser (List α) := repeated parser g.budget

/-- Items with commas between them; after a comma the next line may go on. -/
def commaSeparated {α : Type} (g : Grammar) (ctx : Context) (item : Parser α) :
    Parser (List α) := do
  let first ← item
  return first :: (← g.many do g.space ctx; char ','; g.layout; item)

/-- Statements in a place of their own, with any layout around them. -/
def inner (g : Grammar) : Parser (List Tree) := do
  let trees ← (do g.layout; g.statements) <|> pure []
  g.layout
  return trees

end Grammar

end SpecWording.Ruby
