import SpecWording.Ruby.Parser

/-!
# Words

A word is a longest run of characters that are neither blank nor punctuation; every character
outside ASCII may stand in one. A word that starts with a capital letter of ASCII is a constant. A
keyword is a word of its own, so what begins like one may still be a name.
-/

namespace SpecWording.Ruby

namespace Parser

def isBlank (c : Char) : Bool :=
  c == ' ' || c == '\t' || c == '\r' || c == '\x0b' || c == '\x0c'

def isSpace (c : Char) : Bool := isBlank c || c == '\n'

def isWordChar (c : Char) : Bool := c.isAlphanum || c == '_' || 0x7f ≤ c.toNat

def isWordStart (c : Char) : Bool := isWordChar c && !c.isDigit

def keywords : List String :=
  ["alias", "and", "begin", "break", "case", "class", "def", "do", "else", "elsif",
    "end", "ensure", "false", "for", "if", "in", "module", "next", "nil", "not", "or", "redo",
    "rescue", "retry", "return", "self", "super", "then", "true", "undef", "unless", "until",
    "when", "while", "yield", "BEGIN", "END", "__FILE__", "__LINE__", "__ENCODING__"]

/-- Keywords that may begin an operand. -/
def operandKeywords : List String :=
  ["begin", "break", "case", "class", "def", "defined", "false", "module", "next", "nil", "not",
    "redo", "retry", "return", "self", "super", "true", "yield", "__FILE__", "__LINE__",
    "__ENCODING__", "for"]

/-- The word that comes next, which may be a keyword. -/
def nextWord : Parser String := do
  let cs ← rest
  match cs with
  | c :: _ => if isWordStart c then return String.ofList (cs.takeWhile isWordChar) else return ""
  | [] => return ""

/-- Whether a question or exclamation mark right after a word belongs to it. -/
def takesMark : List Char → Bool
  | c :: '=' :: after =>
    (c == '?' || c == '!') && (after.head?.any fun next => next == '=' || next == '~' || next == '>')
  | c :: _ => c == '?' || c == '!'
  | [] => false

/-- A keyword that is not the beginning of a longer name or a label. -/
def keyword (name : String) : Parser Unit := do
  check ((← nextWord) == name)
  skip name.length
  match ← rest with
  | '?' :: _ => failure
  | '!' :: next :: _ => check (next == '=' || next == '~')
  | ':' :: next :: _ => check (next == ':' || isSpace next == false)
  | _ => pure ()

/-- A keyword at any of several spellings. -/
def keywordOf (names : List String) : Parser String := do
  let name ← nextWord
  check (names.contains name)
  keyword name
  return name

/-- Any word, with a mark that belongs to it; keywords are words too. -/
def methodWord : Parser Unit := do
  let _ ← satisfying isWordStart
  skipWhile isWordChar
  if takesMark (← rest) then skip 1

/-- A name that is no keyword. -/
def plainWord : Parser Unit := do
  check (!keywords.contains (← nextWord))
  let _ ← satisfying isWordStart
  skipWhile isWordChar

/-- Whether the next name is a constant. -/
def comesConstant : Parser Bool := do
  match ← rest with
  | c :: _ => return c.isUpper
  | [] => return false

/-- The kind of the name that comes next. -/
def nameKind : Parser String := do return if ← comesConstant then "constant" else "identifier"

def isGlobalMark (c : Char) : Bool :=
  ['!', '@', '&', '\x60', '\'', '+', '~', '=', '/', '\\', ',', ';', '.', '<', '>', '*', '$', '?',
    ':', '"'].contains c

/-- A variable with a sign in front: of an instance, of a class, or global. -/
def signedVariable : Parser Tree := do
  match ← rest with
  | '@' :: '@' :: _ =>
    token "class_variable" do skip 2; let _ ← satisfying isWordStart; skipWhile isWordChar
  | '@' :: _ =>
    token "instance_variable" do skip 1; let _ ← satisfying isWordStart; skipWhile isWordChar
  | '$' :: '-' :: _ => token "global_variable" do skip 2; skipWhile isWordChar
  | '$' :: c :: _ =>
    if isWordChar c then token "global_variable" do skip 1; skipWhile isWordChar
    else if isGlobalMark c then token "global_variable" (skip 2)
    else failure
  | _ => failure

/-- Operators that name methods, the longest ones first. -/
def operatorNames : List String :=
  ["[]=", "===", "<=>", "!~", "[]", "**", "==", "=~", "!=", "<<", ">>", "<=", ">=", "+@", "-@",
    "~@", "!@", "+", "-", "*", "/", "%", "&", "|", "^", "<", ">", "!", "~", "\x60"]

def operatorName : Parser Unit := do
  let cs ← rest
  match operatorNames.find? fun name => name.toList.isPrefixOf cs with
  | some name => skip name.length
  | none => failure

end Parser

end SpecWording.Ruby
