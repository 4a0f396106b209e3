import SpecWording.Ruby.Literal

/-!
# Here-documents

A here-document is announced by a word and its body follows the line. The body begins at the line
break and ends with the word on a line of its own; the blanks before the word belong to the text.
-/

namespace SpecWording.Ruby

open Ruby.Parser

namespace Heredoc

/-- Whether the closing word comes next and nothing but blanks follows it on its line. -/
def closes (heredoc : Heredoc) (cs : List Char) : Bool :=
  heredoc.word.isPrefixOf cs
    && ((cs.drop heredoc.word.length).dropWhile isBlank).head?.all (· == '\n')

/-- Whether the closing word follows blanks at the beginning of a line. -/
def closesBehind (heredoc : Heredoc) (blanks cs : List Char) : Bool :=
  (heredoc.mayIndent || blanks.getLast?.all (· == '\n')) && heredoc.closes cs

/-- The length of a stretch of text. -/
def stretch (heredoc : Heredoc) : List Char → Nat
  | [] => 0
  | '\n' :: cs =>
    let blanks := cs.takeWhile isSpace
    if heredoc.closesBehind blanks (cs.dropWhile isSpace) then blanks.length + 1
    else stretch heredoc cs + 1
  | c :: cs =>
    if heredoc.interpolates && (c == '\\' || Quoting.beginsInterpolation (c :: cs)) then 0
    else stretch heredoc cs + 1

end Heredoc

/-- The word of a here-document, in quotes of some kind or without any. -/
def heredocWord : Parser (List Char × Bool) := do
  match ← rest with
  | '\'' :: cs => do
    let word := cs.takeWhile fun c => c != '\'' && c != '\n'
    skip (word.length + 1); char '\''; return (word, false)
  | '"' :: cs => do
    let word := cs.takeWhile fun c => c != '"' && c != '\n'
    skip (word.length + 1); char '"'; return (word, true)
  | '\x60' :: cs => do
    let word := cs.takeWhile fun c => c != '\x60' && c != '\n'
    skip (word.length + 1); char '\x60'; return (word, true)
  | cs => do
    let word := cs.takeWhile isWordChar
    check (word.head?.any isWordStart)
    skip word.length; return (word, true)

def heredocBeginning : Parser Tree := do
  let start ← position
  literal "<<"
  let sign ← optional (satisfying fun c => c == '~' || c == '-')
  let (word, interpolates) ← heredocWord
  let heredoc : Heredoc := ⟨word, interpolates, sign.isSome⟩
  modify fun cursor => { cursor with heredocs := cursor.heredocs ++ [heredoc] }
  close "heredoc_beginning" start []

namespace Grammar

def heredocPiece (g : Grammar) (heredoc : Heredoc) : Parser Tree := do
  match heredoc.stretch (← rest) with
  | 0 => do
    check heredoc.interpolates
    escape <|> g.interpolation
  | length => token "heredoc_content" (skip length)

/-- Whether a body is complete: the text read last leads up to the closing word. -/
def heredocComplete (heredoc : Heredoc) (pieces : List Tree) : Parser Bool := do
  return pieces.head?.any (·.kind == "heredoc_content") && heredoc.closes (← rest)

def heredocPieces (g : Grammar) (heredoc : Heredoc) : Parser (List Tree) := do
  let pieces ← iterated (fun pieces => do
    check (!(← heredocComplete heredoc pieces))
    return (← g.heredocPiece heredoc) :: pieces) g.budget []
  check (← heredocComplete heredoc pieces)
  return pieces.reverse

/-- The body of the first here-document that was announced and not read. -/
def heredocBody (g : Grammar) : Parser Unit := do
  match (← get).heredocs with
  | heredoc :: others => do
    let start ← position
    modify fun cursor => { cursor with heredocs := others }
    let pieces ← g.heredocPieces heredoc
    let word ← token "heredoc_end" (skip heredoc.word.length)
    let tree ← close "heredoc_body" start (pieces ++ [word])
    wait tree
  | [] => failure

end Grammar

end SpecWording.Ruby
