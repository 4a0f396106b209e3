import SpecWording.Syntax.Node
import SpecWording.Ruby.Tree
import SpecWording.Ruby.Statement

/-!
# Programs

A program is all statements of a text, up to a line that says that the rest is data. A text that is
no program still has a tree: a word or a sign that begins no statement is passed over, and what can
be read behind it is kept.
-/

namespace SpecWording.Ruby

open Ruby.Parser

/-- Everything behind the word that ends a program. -/
def uninterpreted : Parser Tree := do
  check ((← nextWord) == "__END__")
  literal "__END__"
  token "uninterpreted" (skipWhile fun _ => true)

/-- Passes a word or a sign that begins no statement. -/
def passOver : Parser Unit := do
  match ← rest with
  | c :: _ => if isWordChar c then skipWhile isWordChar else skip 1
  | [] => failure

namespace Grammar

/-- All statements that can be read up to the end of a text. -/
def programStatements (g : Grammar) : Nat → Parser (List Tree)
  | 0 => return []
  | budget + 1 => do
    g.layout
    if (← rest).isEmpty then return []
    else
      let trees ← (do return [← uninterpreted]) <|> g.statements <|> do passOver; return []
      return trees ++ (← g.programStatements budget)

/-- A program begins with its first token or comment and takes up all the rest of its text. -/
def program (g : Grammar) : Parser Tree := do
  g.layout
  let comment := (← get).waiting.head?
  let first ← position
  close "program" ((comment.map Tree.start).getD first) (← g.programStatements g.budget)

end Grammar

/-- The tree of a text. -/
def parse (source : String) : Tree :=
  let cs := source.toList
  match (grammar (16 * cs.length + 64)).program ⟨0, cs, [], []⟩ with
  | some (tree, _) => tree
  | none => ⟨"program", .child, ⟨0, Text.byteLength cs⟩, []⟩

end SpecWording.Ruby

namespace SpecWording

/-- Ruby, of which every text has a tree. -/
def ruby : Language := ⟨"ruby", ["rb"], fun source => .ok ((Ruby.parse source).lower source)⟩

end SpecWording
