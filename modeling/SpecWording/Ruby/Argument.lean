import SpecWording.Ruby.Block

/-!
# Arguments

Arguments stand in parentheses, or behind a name and a blank. In the latter case the blanks decide
what a sign means: `a -b` has an argument, while `a - b` and `a-b` are differences.
-/

namespace SpecWording.Ruby

open Ruby.Parser

namespace Grammar

/-- A name with a colon right behind it, before a value. -/
def label : Parser Tree := do
  let name ← token "hash_key_symbol" methodWord
  match ← rest with
  | ':' :: ':' :: _ => failure
  | ':' :: _ => skip 1
  | _ => failure
  return name

/-- Whether nothing but the next argument or the end of all of them follows. -/
def endsValue : List Char → Bool
  | c :: _ => [',', ')', ']', '}', '\n'].contains c
  | [] => true

/-- A label with its value, which may be missing or stand on the next line. -/
def labelled (g : Grammar) (ctx : Context) : Parser Tree := do
  let name ← label
  let value ← optional do
    g.layout
    check (!endsValue (← rest))
    g.operation ctx 0
  close "pair" name.start (name :: value.toList)

/-- The value behind a key that is an expression or a string in quotes. -/
def valueOf (g : Grammar) (ctx : Context) (key : Tree) : Parser Tree := do
  (do check (key.kind == "string"); char ':'; check ((← rest).head? != some ':'))
    <|> (do g.space ctx; literal "=>")
  g.layout
  g.operation ctx 0

/-- A key with its value, or an expression that is no key. -/
def keyed (g : Grammar) (ctx : Context) : Parser Tree := do
  let key ← g.operation ctx 0
  match ← optional (g.valueOf ctx key) with
  | some value => close "pair" key.start [key, value]
  | none => return key

/-- An operand behind a sign; without one it is what the surrounding method was given. -/
def signed (g : Grammar) (ctx : Context) (kind sign : String) : Parser Tree := do
  let start ← position
  literal sign
  let value ← optional do g.space ctx; g.operation ctx 0
  close kind start value.toList

def forwardArgument : Parser Tree := do
  let tree ← token "forward_argument" (literal "...")
  check (endsValue (← rest))
  return tree

def argument (g : Grammar) (ctx : Context) : Parser Tree := do
  match ← rest with
  | '*' :: '*' :: _ => g.signed ctx "hash_splat_argument" "**"
  | '*' :: _ => g.signed ctx "splat_argument" "*"
  | '&' :: _ => g.signed ctx "block_argument" "&"
  | '.' :: _ => forwardArgument <|> g.keyed ctx
  | _ => g.labelled ctx <|> g.keyed ctx

/-- Items in brackets; a comma may stand behind the last one. -/
def bracketed (g : Grammar) (closing : Char) (item : Parser Tree) : Parser (List Tree) := do
  g.layout
  let trees ← g.commaSeparated .bracket item <|> pure []
  let _ ← optional do g.layout; char ','
  g.layout
  char closing
  return trees

def parenthesized (g : Grammar) : Parser Tree := do
  let start ← position
  char '('
  close "argument_list" start (← g.bracketed ')' (g.argument .bracket))

/-- Whether a word may begin an operand. -/
def beginsOperandWord (cs : List Char) : Bool :=
  let word := String.ofList (cs.takeWhile isWordChar)
  let label := match cs.dropWhile isWordChar with
    | ':' :: ':' :: _ => false
    | ':' :: _ => true
    | _ => false
  label || operandKeywords.contains word || !keywords.contains word

/-- Whether a blank or an equals sign follows, so that a sign joins two operands. -/
def standsApart : List Char → Bool
  | c :: _ => isSpace c || c == '='
  | [] => true

/-- Whether a sign behind a blank begins an argument. -/
def beginsSignedArgument : List Char → Bool
  | '-' :: cs => !standsApart cs
  | '*' :: '*' :: cs => !standsApart cs
  | '*' :: cs => !standsApart cs
  | '&' :: '&' :: _ => false
  | '&' :: '.' :: _ => false
  | '&' :: cs => !standsApart cs
  | '/' :: cs => !standsApart cs
  | '%' :: cs => beginsPercentLiteral ('%' :: cs)
  | '<' :: '<' :: c :: _ => c == '~' || c == '-' || c == '"' || c == '\'' || isWordStart c
  | '?' :: c :: cs => !isSpace c && !(c != '\\' && cs.head?.any isWordChar)
  | '!' :: c :: _ => c != '=' && c != '~'
  | ':' :: ':' :: c :: _ => isWordStart c
  | c :: cs => c == '[' || c == '(' || c == '~' || (c.isDigit || isWordStart c) && beginsOperandWord (c :: cs)
  | [] => false

/-- Whether an argument begins behind a name, with or without a blank between them. -/
def beginsArgument (apart : Bool) : List Char → Bool
  | '"' :: _ | '\'' :: _ | '\x60' :: _ | '@' :: _ | '$' :: _ => true
  | '-' :: '>' :: _ => true
  | ':' :: ':' :: cs => apart && beginsSignedArgument (':' :: ':' :: cs)
  | ':' :: c :: _ => !isSpace c
  | cs => apart && beginsSignedArgument cs

/-- The arguments of a call without parentheses. -/
def commandArguments (g : Grammar) (ctx : Context) : Parser Tree := do
  check ctx.commands
  let name ← position
  g.blanks
  let start ← position
  check (beginsArgument (name != start) (← rest))
  close "argument_list" start (← g.commaSeparated ctx.command (g.argument ctx.command))

end Grammar

end SpecWording.Ruby
