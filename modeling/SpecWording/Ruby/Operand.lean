import SpecWording.Ruby.Definition

/-!
# Operands

An operand is a literal, a name, something in brackets or a construct with a keyword, followed by
calls and indices, with a sign in front or an assignment behind it.
-/

namespace SpecWording.Ruby

open Ruby.Parser

namespace Grammar

def parenthesizedStatements (g : Grammar) : Parser Tree := do
  let start ← position
  char '('
  let trees ← g.inner
  char ')'
  close "parenthesized_statements" start trees

def array (g : Grammar) : Parser Tree := do
  let start ← position
  char '['
  close "array" start (← g.bracketed ']' (g.argument .bracket))

def hash (g : Grammar) : Parser Tree := do
  let start ← position
  char '{'
  close "hash" start (← g.bracketed '}' (g.argument .bracket))

/-- A constant outside of all modules. -/
def topConstant : Parser Tree := do
  let start ← position
  literal "::"
  check (← comesConstant)
  let name ← token "constant" plainWord
  close "scope_resolution" start [name]

/-- A number with a sign in front, which binds tighter than any call. -/
def signedNumber : Parser Tree := do
  let start ← position
  let _ ← satisfying fun c => c == '-' || c == '+'
  close "unary" start [← number]

/-- A word that takes one operand, which stands in parentheses. -/
def parenthesizedUnary (g : Grammar) (word : Parser Unit) : Parser Tree := do
  let start ← position
  word
  g.blanks
  close "unary" start [← g.parenthesizedStatements]

def isDefined : Parser Unit := do
  check ((← nextWord) == "defined")
  literal "defined?"

/-- A keyword that stands for a value, with the kind of its node. -/
def keywordValue (word : String) : Option String :=
  match word with
  | "nil" | "true" | "false" | "self" | "super" => some word
  | "__FILE__" => some "file"
  | "__LINE__" => some "line"
  | "__ENCODING__" => some "encoding"
  | _ => none

def worded (g : Grammar) (ctx : Context) : Parser Reach := do
  let word ← nextWord
  if word == "defined" && (← comes "defined?") then
    return ⟨← g.parenthesizedUnary isDefined, true⟩
  else if word == "not" then return ⟨← g.parenthesizedUnary (keyword "not"), true⟩
  else if !keywords.contains word then g.named ctx
  else match keywordValue word with
    | some kind =>
      let tree ← token kind (keyword word)
      if word == "super" then g.callFrom ctx tree.start [tree.withRole .method] (some tree)
      else return ⟨tree, true⟩
    | none => return ⟨← g.controlled ctx word <|> g.defined ctx word, true⟩

/-- An operand up to the first call or index behind it. -/
def atom (g : Grammar) (ctx : Context) : Parser Reach := do
  let cs ← rest
  let value (parser : Parser Tree) : Parser Reach := do return ⟨← parser, true⟩
  match cs with
  | '"' :: _ | '\'' :: _ | '%' :: _ => value (g.strings ctx)
  | '(' :: _ => value g.parenthesizedStatements
  | '[' :: _ => value g.array
  | '{' :: _ => value g.hash
  | '\x60' :: _ => value g.subshell
  | '/' :: _ => value g.regex
  | ':' :: ':' :: _ => value topConstant
  | ':' :: _ => value g.symbol
  | '?' :: _ => value character
  | '<' :: _ => value heredocBeginning
  | '-' :: '>' :: _ => value g.lambda
  | '-' :: _ | '+' :: _ => value signedNumber
  | '@' :: _ | '$' :: _ => do
    let name ← signedVariable
    g.callFrom ctx name.start [name.withRole .method] (some name)
  | c :: _ => if c.isDigit then value number else g.worded ctx
  | [] => failure

def primaryWith (g : Grammar) (ctx : Context) : Parser Tree := do
  let first ← g.atom ctx
  g.chained ctx first

/-- Whether a value can be assigned to something. -/
def isTarget (tree : Tree) : Bool :=
  ["identifier", "constant", "instance_variable", "class_variable", "global_variable",
    "element_reference", "scope_resolution", "self", "super", "nil", "true",
    "false"].contains tree.kind
    || tree.kind == "call" && tree.children.all fun part =>
        part.role == .receiver || part.role == .method

def combinedAssignments : List String :=
  ["**=", "||=", "&&=", "<<=", ">>=", "+=", "-=", "*=", "/=", "%=", "|=", "&=", "^="]

/-- One of several assigned values. -/
def assignedItem (g : Grammar) (ctx : Context) : Parser Tree := do
  let start ← position
  match ← optional (char '*') with
  | some () => close "splat_argument" start [← g.operation ctx.operand 0]
  | none => g.operation { ctx with multiple := false } 0

/-- An assigned value, with what takes its place if it raises an exception. -/
def assignedValue (g : Grammar) (ctx : Context) : Parser Tree := do
  g.layout
  let value ← g.assignedItem ctx
  match ← optional do g.blanks; keyword "rescue"; g.layout; g.operation ctx.operand 0 with
  | some other => close "rescue_modifier" value.start [value, other]
  | none => return value

/-- One value, or a list of several if the place allows it. -/
def assignedValues (g : Grammar) (ctx : Context) : Parser Tree := do
  let first ← g.assignedValue ctx
  if ctx.multiple then
    let more ← g.many do g.blanks; char ','; g.layout; g.assignedItem ctx.operand
    if more.isEmpty then return first
    else close "right_assignment_list" first.start (first :: more)
  else return first

/-- An equals sign that is not a part of another operator. -/
def equalsSign : Parser Unit := do
  match ← rest with
  | '=' :: c :: _ => check (c != '=' && c != '~' && c != '>')
  | _ => pure ()
  char '='

def assigned (g : Grammar) (ctx : Context) (target : Tree) : Parser Tree := do
  check (isTarget target)
  g.space ctx
  (do equalsSign; close "assignment" target.start [target, ← g.assignedValues ctx]) <|> do
    let cs ← rest
    match combinedAssignments.find? fun sign => sign.toList.isPrefixOf cs with
    | some sign =>
      skip sign.length
      close "operator_assignment" target.start [target, ← g.assignedValue ctx]
    | none => failure

/-- A sign or a word with its operand, whose operators bind at least as tightly as stated. -/
def unary (g : Grammar) (ctx : Context) (sign : Parser Unit) (floor : Nat) : Parser Tree := do
  let start ← position
  sign
  g.layout
  close "unary" start [← g.operation { ctx with multiple := false } floor]

/-- A range without a lower end. -/
def beginless (g : Grammar) (ctx : Context) : Parser Tree := do
  let start ← position
  literal "..." <|> literal ".."
  g.layout
  close "range" start [← g.operation ctx.operand 26]

def operand (g : Grammar) (ctx : Context) : Parser Tree := do
  let simple : Parser Tree := do
    let first ← g.primaryWith ctx
    g.assigned ctx first <|> pure first
  match ← rest with
  | '!' :: _ => g.unary ctx (char '!') 85
  | '~' :: _ => g.unary ctx (char '~') 85
  | '-' :: '>' :: _ => simple
  | '-' :: _ => simple <|> g.unary ctx (char '-') 75
  | '+' :: _ => simple <|> g.unary ctx (char '+') 75
  | '.' :: _ => g.beginless ctx
  | 'n' :: 'o' :: 't' :: _ => simple <|> g.unary ctx (keyword "not") 5
  | 'd' :: 'e' :: 'f' :: 'i' :: _ => simple <|> g.unary ctx isDefined 10
  | _ => simple

end Grammar

end SpecWording.Ruby
