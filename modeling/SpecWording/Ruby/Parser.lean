import SpecWording.Ruby.Tree
import SpecWording.Text.Utf8

/-!
# Parsers of Ruby text

A parser moves a cursor over a text or fails, and a failing parser leaves the cursor where it was.
Comments and bodies of here-documents may stand between any two tokens: they wait at the cursor
until a node ends that began before them, so that each lands in the innermost node around it.
-/

namespace SpecWording.Ruby

/-- A here-document whose body has not been reached. -/
structure Heredoc where
  word : List Char
  /-- Escapes and interpolations count. -/
  interpolates : Bool
  /-- The closing word may stand behind blanks. -/
  mayIndent : Bool

structure Cursor where
  offset : Nat
  rest : List Char
  /-- Here-documents that begin on the current line, in order. -/
  heredocs : List Heredoc
  /-- Comments and here-document bodies that belong to no node yet, in order. -/
  waiting : List Tree

abbrev Parser := StateT Cursor Option

namespace Parser

def position : Parser Nat := fun cursor => some (cursor.offset, cursor)

def rest : Parser (List Char) := fun cursor => some (cursor.rest, cursor)

/-- Goes on if a condition holds. -/
def check (condition : Bool) : Parser Unit := if condition then pure () else failure

/-- Passes some characters, given with what follows them. -/
def pass (front after : List Char) : Parser Unit := fun cursor =>
  some ((), { cursor with offset := cursor.offset + Text.byteLength front, rest := after })

/-- Passes as many characters as stated, or as many as there are. -/
def skip (count : Nat) : Parser Unit := do
  let cs ← rest
  pass (cs.take count) (cs.drop count)

/-- Passes the longest stretch of characters that pass a test. -/
def skipWhile (test : Char → Bool) : Parser Unit := do
  let cs ← rest
  pass (cs.takeWhile test) (cs.dropWhile test)

/-- One character that passes a test. -/
def satisfying (test : Char → Bool) : Parser Char := fun cursor =>
  match cursor.rest with
  | c :: cs =>
    if test c then
      some (c, { cursor with offset := cursor.offset + c.utf8Size, rest := cs })
    else none
  | [] => none

def char (c : Char) : Parser Unit := do let _ ← satisfying (· == c)

/-- Whether a text comes next. -/
def comes (text : String) : Parser Bool := do return text.toList.isPrefixOf (← rest)

def literal (text : String) : Parser Unit := do
  check (← comes text)
  skip text.length

/-- Repeats a parser until it fails, but no more often than stated. -/
def repeated {α : Type} (parser : Parser α) : Nat → Parser (List α)
  | 0 => pure []
  | budget + 1 => do
    match ← optional parser with
    | some value => return value :: (← repeated parser budget)
    | none => return []

/-- Carries a value from one step to the next until a step fails. -/
def iterated {α : Type} (step : α → Parser α) : Nat → α → Parser α
  | 0, value => pure value
  | budget + 1, value => do
    match ← optional (step value) with
    | some next => iterated step budget next
    | none => return value

/-- What waits at the cursor goes between the children, by where it starts. -/
def between : List Tree → List Tree → List Tree
  | [], waiting => waiting
  | child :: children, waiting =>
    let (before, after) := waiting.span fun tree => decide (tree.start < child.start)
    before ++ child :: between children after

/-- Ends a node at the cursor; it takes whatever waits there and began after the node did. -/
def close (kind : String) (start : Nat) (children : List Tree) : Parser Tree := fun cursor =>
  let (inside, outside) := cursor.waiting.partition fun tree => decide (start ≤ tree.start)
  let tree : Tree := ⟨kind, .child, ⟨start, cursor.offset⟩, between children inside⟩
  some (tree, { cursor with waiting := outside })

/-- A node without children that covers what a parser passes. -/
def token (kind : String) (parser : Parser Unit) : Parser Tree := do
  let start ← position
  parser
  return ⟨kind, .child, ⟨start, ← position⟩, []⟩

/-- Puts a tree aside until a node around it ends. -/
def wait (tree : Tree) : Parser Unit := fun cursor =>
  some ((), { cursor with waiting := cursor.waiting ++ [tree] })

end Parser

end SpecWording.Ruby
