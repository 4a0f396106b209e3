import SpecWording.Ruby.Grammar

/-!
# Quoted literals

Quoted literals are read piece by piece: stretches of text, escapes and interpolated statements.
Brackets that serve as quotes nest. Without interpolation a backslash and the character after it are
text like any other, so a closing quote behind a backslash does not close.
-/

namespace SpecWording.Ruby

open Ruby.Parser

/-- How a quoted literal is written. -/
structure Quoting where
  /-- The opening quote if it nests. -/
  opening? : Option Char
  closing : Char
  interpolates : Bool
  /-- Blanks separate the words of the literal. -/
  separates : Bool

namespace Quoting

/-- A variable behind a number sign is interpolated without braces. -/
def beginsVariable : List Char → Bool
  | '@' :: '@' :: c :: _ => isWordStart c
  | '@' :: c :: _ => isWordStart c
  | '$' :: c :: _ => isWordStart c
  | _ => false

def beginsInterpolation : List Char → Bool
  | '#' :: '{' :: _ => true
  | '#' :: cs => beginsVariable cs
  | _ => false

/-- Whether a stretch of text ends, where so many brackets are open. -/
def ends (quoting : Quoting) (depth : Nat) (c : Char) (cs : List Char) : Bool :=
  (c == quoting.closing && depth == 0) || (quoting.separates && isSpace c)
    || (quoting.interpolates && (c == '\\' || beginsInterpolation (c :: cs)))

/-- The number of open brackets after a character. -/
def depthAfter (quoting : Quoting) (depth : Nat) (c : Char) : Nat :=
  if quoting.opening? == some c then depth + 1
  else if c == quoting.closing then depth - 1 else depth

/-- The length of a stretch of text and the number of open brackets after it. -/
def stretch (quoting : Quoting) : Nat → List Char → Nat × Nat
  | depth, [] => (0, depth)
  | depth, [c] => if quoting.ends depth c [] then (0, depth) else (1, quoting.depthAfter depth c)
  | depth, c :: next :: cs =>
    if quoting.ends depth c (next :: cs) then (0, depth)
    else if c == '\\' then
      let (length, depth) := stretch quoting depth cs
      (length + 2, depth)
    else
      let (length, depth) := stretch quoting (quoting.depthAfter depth c) (next :: cs)
      (length + 1, depth)

end Quoting

def isHexDigit (c : Char) : Bool := c.isDigit || ('a' ≤ c && c ≤ 'f') || ('A' ≤ c && c ≤ 'F')

def isOctalDigit (c : Char) : Bool := '0' ≤ c && c ≤ '7'

/-- The length of an escape, its backslash included. -/
def escapeLength : List Char → Nat
  | '\\' :: 'u' :: '{' :: cs => (cs.takeWhile (· != '}')).length + 4
  | '\\' :: 'u' :: cs => ((cs.take 4).takeWhile isHexDigit).length + 2
  | '\\' :: 'x' :: cs => ((cs.take 2).takeWhile isHexDigit).length + 2
  | '\\' :: c :: cs => if isOctalDigit c then ((cs.take 2).takeWhile isOctalDigit).length + 2 else 2
  | _ => 1

def escape : Parser Tree := do
  let cs ← rest
  check (cs.head? == some '\\')
  token "escape_sequence" (skip (escapeLength cs))

namespace Grammar

/-- A number sign with statements in braces, or with a variable right behind it. -/
def interpolation (g : Grammar) : Parser Tree := do
  let start ← position
  check (Quoting.beginsInterpolation (← rest))
  skip 1
  let children ← (do char '{'; let trees ← g.inner; char '}'; return trees)
    <|> (do return [← signedVariable])
  close "interpolation" start children

/-- The next piece of a literal, with the number of brackets open before and after it. -/
def literalPiece (g : Grammar) (quoting : Quoting) (depth : Nat) : Parser (Nat × Tree) := do
  let (length, after) := quoting.stretch depth (← rest)
  if length == 0 then
    check quoting.interpolates
    return (depth, ← escape <|> g.interpolation)
  else return (after, ← token "string_content" (skip length))

/-- All pieces up to the closing quote. -/
def literalPieces (g : Grammar) (quoting : Quoting) : Parser (List Tree) := do
  let (_, trees) ← iterated (fun (depth, trees) => do
    let (depth, tree) ← g.literalPiece quoting depth
    return (depth, tree :: trees)) g.budget (0, [])
  return trees.reverse

/-- The rest of a literal behind its opening quote. -/
def quoted (g : Grammar) (kind : String) (start : Nat) (quoting : Quoting) : Parser Tree := do
  let trees ← g.literalPieces quoting
  char quoting.closing
  if kind == "regex" then skipWhile Char.isLower
  close kind start trees

/-- Words with blanks between them, behind an opening quote. -/
def quotedWords (g : Grammar) (kind part : String) (start : Nat) (quoting : Quoting) :
    Parser Tree := do
  skipWhile isSpace
  let words ← g.many do
    let start ← position
    let trees ← g.literalPieces quoting
    check (!trees.isEmpty)
    let word ← close part start trees
    skipWhile isSpace
    return word
  char quoting.closing
  close kind start words

/-- The quote that ends what a quote begins. -/
def closingQuote : Char → Char
  | '(' => ')'
  | '[' => ']'
  | '{' => '}'
  | '<' => '>'
  | c => c

def percentQuoting (delimiter : Char) (interpolates separates : Bool) : Quoting :=
  let closing := closingQuote delimiter
  ⟨if closing == delimiter then none else some delimiter, closing, interpolates, separates⟩

/-- A literal behind a percent sign, a letter for its kind, and a quote of any shape. -/
def percentLiteral (g : Grammar) : Parser Tree := do
  let start ← position
  char '%'
  let letter ← optional (satisfying Char.isAlpha)
  let delimiter ← satisfying fun c => !isWordChar c && !isSpace c
  match letter with
  | none | some 'Q' => g.quoted "string" start (percentQuoting delimiter true false)
  | some 'q' => g.quoted "string" start (percentQuoting delimiter false false)
  | some 'r' => g.quoted "regex" start (percentQuoting delimiter true false)
  | some 'x' => g.quoted "subshell" start (percentQuoting delimiter true false)
  | some 's' => g.quoted "delimited_symbol" start (percentQuoting delimiter false false)
  | some 'w' =>
    g.quotedWords "string_array" "bare_string" start (percentQuoting delimiter false true)
  | some 'W' =>
    g.quotedWords "string_array" "bare_string" start (percentQuoting delimiter true true)
  | some 'i' =>
    g.quotedWords "symbol_array" "bare_symbol" start (percentQuoting delimiter false true)
  | some 'I' =>
    g.quotedWords "symbol_array" "bare_symbol" start (percentQuoting delimiter true true)
  | some _ => failure

/-- A literal whose one-character quotes are alike at both ends. -/
def simplyQuoted (g : Grammar) (kind : String) (start : Nat) (quote : Char)
    (interpolates : Bool) : Parser Tree := do
  char quote
  g.quoted kind start ⟨none, quote, interpolates, false⟩

/-- A literal in quotes or behind a percent sign. -/
def string (g : Grammar) : Parser Tree := do
  let start ← position
  match ← rest with
  | '"' :: _ => g.simplyQuoted "string" start '"' true
  | '\'' :: _ => g.simplyQuoted "string" start '\'' false
  | '%' :: _ => g.percentLiteral
  | _ => failure

/-- Whether a percent sign is the beginning of a literal and not an operator. -/
def beginsPercentLiteral : List Char → Bool
  | '%' :: c :: _ => !isSpace c && c != '='
  | _ => false

/-- A string with more of them behind it is one literal. -/
def strings (g : Grammar) (ctx : Context) : Parser Tree := do
  let start ← position
  let first ← g.string
  if first.kind == "string" then
    let more ← g.many do
      g.space ctx
      let cs ← rest
      check (cs.head? != some '%' || beginsPercentLiteral cs)
      let next ← g.string
      check (next.kind == "string")
      return next
    if more.isEmpty then return first else close "chained_string" start (first :: more)
  else return first

def regex (g : Grammar) : Parser Tree := do g.simplyQuoted "regex" (← position) '/' true

def subshell (g : Grammar) : Parser Tree := do g.simplyQuoted "subshell" (← position) '\x60' true

/-- A colon with a literal in quotes, a name or an operator right behind it. -/
def symbol (g : Grammar) : Parser Tree := do
  let start ← position
  match ← rest with
  | ':' :: '"' :: _ => do skip 1; g.simplyQuoted "delimited_symbol" start '"' true
  | ':' :: '\'' :: _ => do skip 1; g.simplyQuoted "delimited_symbol" start '\'' false
  | ':' :: c :: _ =>
    token "simple_symbol" do
      skip 1
      if c == '@' || c == '$' then
        let _ ← signedVariable
      else if isWordStart c then
        methodWord
        match ← rest with
        | '=' :: next :: _ => if next != '=' && next != '~' && next != '>' then skip 1
        | _ => pure ()
      else operatorName
  | _ => failure

end Grammar

/-- A character behind a question mark. -/
def character : Parser Tree := do
  let tree ← token "character" do
    char '?'
    let cs ← rest
    check (!cs.head?.any isSpace && !cs.isEmpty)
    skip (escapeLength cs)
  check (!(← rest).head?.any isWordChar)
  return tree

end SpecWording.Ruby
