import SpecWording.Ruby.Call

/-!
# Patterns

A pattern says what a value looks like: a literal, a constant, a range, a name for whatever is there,
or a list or table of patterns, perhaps with a constant for its class in front. A list whose first
and last items both stand for any number of values finds what is between them.
-/

namespace SpecWording.Ruby

open Ruby.Parser

namespace Grammar

/-- A constant, perhaps inside others. -/
def constantPath (g : Grammar) : Parser Tree := do
  let start ← position
  let constant := token "constant" do check (← comesConstant); plainWord
  let first ← constant <|> do
    literal "::"
    let name ← constant
    close "scope_resolution" start [name]
  iterated (fun scope => do
    literal "::"
    let name ← constant
    close "scope_resolution" start [scope, name]) g.budget first

/-- Keywords that are values of their own in a pattern. -/
def valueKeywords : List String :=
  ["nil", "true", "false", "self", "__FILE__", "__LINE__", "__ENCODING__"]

/-- A literal or a keyword that stands for a value. -/
def literalPattern (g : Grammar) : Parser Tree := do
  match ← rest with
  | c :: _ => check (!isWordStart c || valueKeywords.contains (← nextWord))
  | [] => failure
  g.primary Context.single.operand

/-- A range without a lower end. -/
def beginlessPattern (g : Grammar) : Parser Tree := do
  let start ← position
  literal "..." <|> literal ".."
  close "range" start [← g.literalPattern <|> g.constantPath]

/-- A literal or a constant, or a range that begins with it. -/
def valuePattern (g : Grammar) (first : Tree) : Parser Tree := do
  match ← optional do g.blanks; literal "..." <|> literal ".." with
  | some () =>
    let last ← optional (g.literalPattern <|> g.constantPath)
    close "range" first.start (first :: last.toList)
  | none => return first

/-- The value of a name or of an expression. -/
def referencePattern (g : Grammar) : Parser Tree := do
  let start ← position
  char '^'
  (do
      char '('
      g.layout
      let value ← g.expression .bracket
      g.layout
      char ')'
      close "expression_reference_pattern" start [value])
    <|> do close "variable_reference_pattern" start [← signedVariable <|> token "identifier" plainWord]

/-- A key of a table with a colon right behind it. -/
def patternKey (g : Grammar) : Parser Tree := do
  label <|> do
    let key ← g.string
    char ':'
    return key

/-- An entry of a table; a key alone also names its value. -/
def keywordPattern (g : Grammar) (ctx : Context) (inner : Parser Tree) : Parser Tree := do
  let key ← g.patternKey
  let value ← optional do g.space ctx; inner
  close "keyword_pattern" key.start (key :: value.toList)

/-- An item of a table: an entry, or a name for all other entries. -/
def tableItem (g : Grammar) (ctx : Context) (inner : Parser Tree) : Parser Tree :=
  token "hash_splat_nil" (do literal "**nil"; check (!(← rest).head?.any isWordChar))
    <|> signedParameter "hash_splat_parameter" "**" <|> g.keywordPattern ctx inner

/-- An item of a list: a pattern, or a name for any number of items. -/
def listItem (inner : Parser Tree) : Parser Tree := signedParameter "splat_parameter" "*" <|> inner

def isSplat (tree : Option Tree) : Bool := tree.any (·.kind == "splat_parameter")

/-- The kind of a list of patterns, by its first and its last item. -/
def listKind (items : List Tree) : String :=
  if 2 < items.length && isSplat items.head? && isSplat items.getLast? then "find_pattern"
  else "array_pattern"

/-- Items with commas between them; a comma behind the last one stands for all further items. -/
def listItems (g : Grammar) (ctx : Context) (inner : Parser Tree) : Parser (List Tree) := do
  let items ← g.commaSeparated ctx (listItem inner)
  let further ← optional (token "splat_parameter" do g.space ctx; char ',')
  return items ++ further.toList

def tableItems (g : Grammar) (ctx : Context) (inner : Parser Tree) : Parser (List Tree) := do
  let items ← g.commaSeparated ctx (g.tableItem ctx inner)
  let _ ← optional do g.space ctx; char ','
  return items

/-- What stands in brackets behind a class. -/
def classItems (g : Grammar) (inner : Parser Tree) (start : Nat) (first : List Tree)
    (closing : Char) : Parser Tree := do
  g.layout
  let table ← optional (g.tableItems .bracket inner)
  let list ← if table.isSome then pure none else optional (g.listItems .bracket inner)
  g.layout
  char closing
  match table, list with
  | some items, _ => close "hash_pattern" start (first ++ items)
  | none, some items => close (listKind items) start (first ++ items)
  | none, none => close "array_pattern" start first

/-- A constant, which may be the class of what follows in brackets. -/
def constantPattern (g : Grammar) (inner : Parser Tree) : Parser Tree := do
  let constant ← g.constantPath
  match ← rest with
  | '(' :: _ => do skip 1; g.classItems inner constant.start [constant] ')'
  | '[' :: _ => do skip 1; g.classItems inner constant.start [constant] ']'
  | _ => g.valuePattern constant

def bracedPattern (g : Grammar) (inner : Parser Tree) : Parser Tree := do
  let start ← position
  char '{'
  g.layout
  let items ← g.tableItems .bracket inner <|> pure []
  g.layout
  char '}'
  close "hash_pattern" start items

def parenthesizedPattern (g : Grammar) (inner : Parser Tree) : Parser Tree := do
  let start ← position
  char '('
  g.layout
  let tree ← inner
  g.layout
  char ')'
  close "parenthesized_pattern" start [tree]

/-- A pattern without alternatives. -/
def basicPattern (g : Grammar) (inner : Parser Tree) : Parser Tree := do
  match ← rest with
  | '[' :: _ => do
    let start ← position
    skip 1
    g.classItems inner start [] ']'
  | '{' :: _ => g.bracedPattern inner
  | '(' :: _ => g.parenthesizedPattern inner
  | '^' :: _ => g.referencePattern
  | '.' :: _ => g.beginlessPattern
  | _ =>
    g.constantPattern inner <|> token "identifier" plainWord
      <|> do g.valuePattern (← g.literalPattern)

/-- Alternatives, and names for what they match. -/
def patternWithin (g : Grammar) : Nat → Parser Tree
  | 0 => failure
  | depth + 1 => do
    let inner := g.patternWithin depth
    let first ← g.basicPattern inner
    let others ← g.many do g.blanks; char '|'; g.layout; g.basicPattern inner
    let whole ← match others with
      | [] => pure first
      | others => close "alternative_pattern" first.start (first :: others)
    iterated (fun tree => do
      g.blanks
      literal "=>"
      g.layout
      close "as_pattern" tree.start [tree, ← token "identifier" plainWord]) g.budget whole

/-- A pattern, or items of a list or a table without brackets around them. -/
def wholePattern (g : Grammar) : Parser Tree := do
  let inner := g.patternWithin g.budget
  let start ← position
  match ← optional (g.tableItems .single inner) with
  | some items => close "hash_pattern" start items
  | none =>
    match ← g.listItems .single inner with
    | [item] =>
      if item.kind == "splat_parameter" then close "array_pattern" start [item] else return item
    | items => close (listKind items) start items

end Grammar

end SpecWording.Ruby
