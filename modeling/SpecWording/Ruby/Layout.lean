import SpecWording.Ruby.Word

/-!
# Blanks, comments and line breaks

A line break ends a statement unless the next line goes on with a method of what stands before it.
Comments after the statement, on its line or on lines of their own, come before the line break that
counts. Bodies of here-documents follow the line that announces them and are read by a parser given
from outside.
-/

namespace SpecWording.Ruby.Parser

/-- A backslash joins two lines. -/
def joinLines : Parser Unit := do
  match ← rest with
  | '\\' :: '\n' :: _ => skip 2
  | '\\' :: '\r' :: '\n' :: _ => skip 3
  | _ => failure

/-- Blanks within a line; a carriage return before the body of a here-document belongs to the body. -/
def plainBlanks : Parser Unit := do
  let cursor ← get
  skipWhile fun c => isBlank c && (c != '\r' || cursor.heredocs.isEmpty)

/-- Blanks within a line, joined lines included. -/
def blanks (budget : Nat) : Parser Unit := do
  plainBlanks
  let _ ← repeated (do joinLines; plainBlanks) budget

def lineComment : Parser Unit := do
  let tree ← token "comment" do
    char '#'
    skipWhile (· != '\n')
  wait tree

/-- Lines between two marks at the beginning of a line. -/
def blockComment (budget : Nat) : Parser Unit := do
  let tree ← token "comment" do
    literal "=begin"
    let _ ← repeated (do check (!(← comes "\n=end")); skip 1; skipWhile (· != '\n')) budget
    literal "\n=end"
    skipWhile (· != '\n')
  wait tree

/-- One piece of layout between two tokens: a line break may stand there. -/
def layoutPiece (bodies : Parser Unit) (budget : Nat) : Parser Unit := do
  match ← rest with
  | '#' :: _ => lineComment
  | '=' :: _ => blockComment budget
  | '\\' :: _ => joinLines
  | '\n' :: _ | '\r' :: _ => bodies <|> skip 1
  | c :: _ => do check (isBlank c); plainBlanks
  | [] => failure

/-- Everything between two tokens where a line break means nothing. -/
def layout (bodies : Parser Unit) (budget : Nat) : Parser Unit := do
  let _ ← repeated (layoutPiece bodies budget) budget

/-- Whether a line goes on with a method of what stands before it. -/
def continues : List Char → Bool
  | '.' :: '.' :: _ => false
  | '.' :: _ => true
  | '&' :: '.' :: _ => true
  | _ => false

/-- Goes from a line break on to another one that stands behind a comment or a body. -/
def laterBreak (bodies : Parser Unit) (budget : Nat) : Parser Unit := do
  match ← rest with
  | '\n' :: cs =>
    bodies <|> do
      check ((cs.dropWhile isSpace).head? == some '#')
      skipWhile isSpace
      lineComment
  | '#' :: _ => lineComment
  | '\r' :: _ => bodies
  | _ => failure
  blanks budget

/-- Moves to the line break that ends a statement, but not over it. -/
def lineBreak (bodies : Parser Unit) (budget : Nat) : Parser Unit := do
  blanks budget
  let _ ← repeated (laterBreak bodies budget) budget
  match ← rest with
  | '\n' :: cs => check (!continues (cs.dropWhile isSpace))
  | _ => failure

/-- Passes line breaks before a line that goes on with a method. -/
def continuation (bodies : Parser Unit) (budget : Nat) : Parser Unit := do
  blanks budget
  let _ ← repeated (laterBreak bodies budget) budget
  skipWhile isSpace
  check (continues (← rest))

end SpecWording.Ruby.Parser
