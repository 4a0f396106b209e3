import SpecWording.Ruby.Control

/-!
# Definitions

Methods, classes, modules and functions without a name.
-/

namespace SpecWording.Ruby

open Ruby.Parser

namespace Grammar

/-- Whether an equals sign right behind a name belongs to it. -/
def beginsSetter : List Char → Bool
  | '=' :: '(' :: _ => true
  | '=' :: c :: _ => isWordStart c
  | _ => false

/-- The name of a method where it is defined: a word, an operator, or a word to assign to. -/
def definedName : Parser Tree := do
  let start ← position
  if (← rest).head?.any isWordStart then
    let name ← token (← nameKind) methodWord
    if beginsSetter (← rest) then
      skip 1
      close "setter" start [name]
    else return name
  else token "operator" operatorName

/-- Names where a method gets a second name or is taken away. -/
def mentionedName (g : Grammar) : Parser Tree := g.symbol <|> signedVariable <|> definedName

/-- A method whose body is a single value. -/
def bodyValue (g : Grammar) (ctx : Context) : Parser Tree := do
  g.blanks
  char '='
  g.layout
  let value ← g.operation { ctx with multiple := false } 0
  match ← optional do g.blanks; keyword "rescue"; g.layout; g.operation ctx.operand 0 with
  | some other => close "rescue_modifier" value.start [value, other]
  | none => return value

/-- The parameters and the body of a method. -/
def methodRest (g : Grammar) (ctx : Context) : Parser (List Tree) := do
  let parameters ← optional do g.blanks; g.parameters "method_parameters" g.budget
  match ← optional (g.bodyValue ctx) with
  | some value => return parameters.toList ++ [value]
  | none =>
    let bare ← match parameters with
      | some _ => pure none
      | none => optional do g.blanks; g.bareParameters "method_parameters"
    let body ← g.definitionBody
    return parameters.toList ++ bare.toList ++ body.toList

/-- The object that a method is defined for. -/
def methodOwner (g : Grammar) : Parser Tree := do
  let owner ← token "self" (keyword "self") <|> (do token (← nameKind) plainWord)
    <|> signedVariable <|> do
      char '('; g.layout; let tree ← g.expression .bracket; g.layout; char ')'; return tree
  literal "::" <|> do char '.'
  return owner

def method (g : Grammar) (ctx : Context) : Parser Tree := do
  let start ← position
  keyword "def"
  g.layout
  let owner ← optional g.methodOwner
  let name ← definedName
  let trees ← g.methodRest ctx
  close (if owner.isSome then "singleton_method" else "method") start
    (owner.toList ++ name :: trees)

def superclass (g : Grammar) : Parser Tree := do
  let start ← position
  char '<'
  g.layout
  close "superclass" start [← g.expression .single]

/-- The class of a single object. -/
def singletonClass (g : Grammar) (start : Nat) : Parser Tree := do
  literal "<<"
  g.layout
  let value ← g.operation .single 0
  let _ ← g.terminator
  let body ← g.definitionBody
  close "singleton_class" start (value :: body.toList)

def classDefinition (g : Grammar) : Parser Tree := do
  let start ← position
  keyword "class"
  g.layout
  g.singletonClass start <|> do
    let name ← g.constantPath
    let parent ← optional do g.blanks; g.superclass
    let body ← g.definitionBody
    close "class" start (name :: parent.toList ++ body.toList)

def moduleDefinition (g : Grammar) : Parser Tree := do
  let start ← position
  keyword "module"
  g.layout
  let name ← g.constantPath
  let body ← g.definitionBody
  close "module" start (name :: body.toList)

/-- An arrow with parameters and a block. -/
def lambda (g : Grammar) : Parser Tree := do
  let start ← position
  literal "->"
  g.blanks
  let parameters ← optional
    (g.parameters "lambda_parameters" g.budget <|> g.bareParameters "lambda_parameters")
  g.blanks
  let body ← g.braceBlock <|> g.doBlock
  close "lambda" start (parameters.toList ++ [body])

/-- The definition that a keyword begins. -/
def defined (g : Grammar) (ctx : Context) (word : String) : Parser Tree :=
  match word with
  | "def" => g.method ctx
  | "class" => g.classDefinition
  | "module" => g.moduleDefinition
  | _ => failure

end Grammar

end SpecWording.Ruby
