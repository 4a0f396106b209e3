import SpecWording.Toml.Quoted
import SpecWording.Toml.Number
import SpecWording.Toml.Datetime
import SpecWording.Toml.Value

/-!
# TOML documents

`parse?` gives the root table of a text, or none if the text is no document. A document is read
line by line: a header opens a table, and every key after it belongs to that table. Values nest to
a limited depth, and so do dotted keys.
-/

namespace SpecWording.Toml

open Text (Scanner)
open Text.Scanner (satisfying char oneOf many repeated separated literal next?)

/-- Brackets nest less deep than this, and keys have fewer parts. -/
def depthLimit : Nat := 80

def blanks : Scanner Unit := do let _ ← many Quoted.isBlank

def comment : Scanner Unit := do
  char '#'
  let _ ← many Quoted.isPlain

/-- Blanks, line breaks and comments, of which every one has its own line's end. -/
def gap : Scanner Unit := do
  let _ ← repeated do
    blanks
    let _ ← optional comment
    Quoted.lineBreak
  blanks

/-- The end of a line, behind blanks and a comment. -/
def lineEnd : Scanner Unit := do
  blanks
  let _ ← optional comment
  Quoted.lineBreak <|> Text.Scanner.finish

def isBareKeyChar (c : Char) : Bool := c.isAlphanum || c == '_' || c == '-'

def simpleKey : Scanner String :=
  Quoted.line <|> do
    let bare ← many isBareKeyChar
    if bare.isEmpty then failure
    return String.ofList bare

/-- A key of one or more parts with periods between them: the parts before the last, and the last. -/
def key : Scanner (List String × String) := do
  let parts ← separated (do blanks; let part ← simpleKey; blanks; return part) (char '.')
  match parts.reverse with
  | last :: front => if parts.length < depthLimit then return (front.reverse, last) else failure
  | [] => failure

def boolean : Scanner Value :=
  (do literal "true".toList; return .boolean true) <|>
    (do literal "false".toList; return .boolean false)

/-- A value that has no values inside. -/
def scalar : Scanner Value :=
  (.string <$> Quoted.text) <|> boolean <|> (.datetime <$> Datetime.datetime) <|> Number.number

/-- The items of an array after its opening bracket; the last one may have a comma behind it. -/
def arrayRest (item : Scanner Value) : Scanner Value := do
  let items ← separated (do gap; let item ← item; gap; return item) (char ',')
  unless items.isEmpty do
    let _ ← optional (char ',')
  gap
  char ']'
  return .array items

/-- The entries of an inline table after its opening brace. -/
def inlineRest (item : Scanner Value) : Scanner Value := do
  let entries ← separated (do
    let (path, key) ← key
    char '='
    blanks
    let value ← item
    blanks
    return (path, key, value)) (char ',')
  blanks
  char '}'
  let draft ← (entries.foldlM (fun draft (path, key, value) =>
    Draft.assign path key value draft) {} : Option (Draft Item))
  return draft.toValue

/-- A value with no more than the given levels of brackets. -/
def value : (levels : Nat) → Scanner Value
  | 0 => scalar
  | levels + 1 => do
    match ← next? with
    | some '[' => char '['; arrayRest (value levels)
    | some '{' => char '{'; inlineRest (value levels)
    | _ => scalar

/-- What one line of a document says. -/
inductive Line where
  | empty
  | table (path : List String) (key : String)
  | tables (path : List String) (key : String)
  | entry (path : List String) (key : String) (value : Value)


def line : Scanner Line := do
  blanks
  match ← next? with
  | some '[' => (do
      literal ['[', '[']
      let (path, key) ← key
      literal [']', ']']
      lineEnd
      return .tables path key) <|> do
    char '['
    let (path, key) ← key
    char ']'
    lineEnd
    return .table path key
  | none | some '#' | some '\n' | some '\r' => lineEnd; return .empty
  | some _ =>
    let (path, key) ← key
    char '='
    blanks
    let value ← value (depthLimit - 1)
    lineEnd
    return .entry path key value

/-- The root table so far, and the path to the table that the latest header opened. -/
structure Progress where
  root : Draft Item := {}
  opened : List String := []

def Progress.add (progress : Progress) : Line → Option Progress
  | .empty => some progress
  | .table path key => do
    return ⟨← progress.root.openTable path key, path ++ [key]⟩
  | .tables path key => do
    return ⟨← progress.root.openNext path key, path ++ [key]⟩
  | .entry path key value => do
    let root ← progress.root.inOpened progress.opened (Draft.assign path key value)
    return { progress with root := root }

/-- The lines of a text, up to one that is none. -/
def documentLines : Scanner (List Line) := repeated line

def byteOrderMark : Char := '\ufeff'

/-- The root table of a document. -/
def parse? (text : String) : Option Value := do
  let (lines, rest) ← (do
    let _ ← optional (char byteOrderMark)
    documentLines : Scanner (List Line)) text.toList
  if rest.isEmpty then
    let progress ← lines.foldlM Progress.add {}
    return progress.root.toValue
  else none

end SpecWording.Toml
