import SpecWording.Json.Quoted

/-!
# JSON values and their text

Numbers and strings are kept as they are written, without the quotes: whether a literal fits a type
is decided by whoever reads it as that type, so that a member nobody reads cannot fail. `compact`
writes no blanks at all, `pretty` gives every item a line of its own, indented by two blanks a level.
-/

namespace SpecWording

inductive Json where
  | null
  | bool (value : Bool)
  | number (literal : List Char)
  | string (body : List Char)
  | array (items : List Json)
  | object (members : List (List Char × Json))
  deriving Repr, Inhabited

namespace Json

def ofNat (n : Nat) : Json := .number (toString n).toList

def ofString (text : String) : Json := .string (Quoted.encode text.toList)

/-- An object of named members. -/
def ofMembers (members : List (String × Json)) : Json :=
  .object (members.map fun (name, value) => (Quoted.encode name.toList, value))

def quote (body : List Char) : List Char := '"' :: body ++ ['"']

/-- Writes items with a comma between them. -/
def commas : List (List Char) → List Char
  | [] => []
  | [item] => item
  | item :: other :: items => item ++ ',' :: commas (other :: items)

mutual

def compactChars : Json → List Char
  | null => ['n', 'u', 'l', 'l']
  | bool true => ['t', 'r', 'u', 'e']
  | bool false => ['f', 'a', 'l', 's', 'e']
  | number literal => literal
  | string body => quote body
  | array items => '[' :: commas (compactItems items) ++ [']']
  | object members => '{' :: commas (compactMembers members) ++ ['}']

def compactItems : List Json → List (List Char)
  | [] => []
  | item :: items => compactChars item :: compactItems items

def compactMembers : List (List Char × Json) → List (List Char)
  | [] => []
  | (name, value) :: members => (quote name ++ ':' :: compactChars value) :: compactMembers members

end

/-- A line break followed by the indentation of a level. -/
def newline (level : Nat) : List Char := '\n' :: List.replicate (2 * level) ' '

/-- Puts each item on a line of its own, one level deeper than the brackets around them. -/
def lines (level : Nat) (opening closing : Char) (items : List (List Char)) : List Char :=
  if items.isEmpty then [opening, closing]
  else opening :: commas (items.map (newline (level + 1) ++ ·)) ++ newline level ++ [closing]

mutual

def prettyChars (level : Nat) : Json → List Char
  | null => ['n', 'u', 'l', 'l']
  | bool true => ['t', 'r', 'u', 'e']
  | bool false => ['f', 'a', 'l', 's', 'e']
  | number literal => literal
  | string body => quote body
  | array items => lines level '[' ']' (prettyItems (level + 1) items)
  | object members => lines level '{' '}' (prettyMembers (level + 1) members)

def prettyItems (level : Nat) : List Json → List (List Char)
  | [] => []
  | item :: items => prettyChars level item :: prettyItems level items

def prettyMembers (level : Nat) : List (List Char × Json) → List (List Char)
  | [] => []
  | (name, value) :: members =>
    (quote name ++ ':' :: ' ' :: prettyChars level value) :: prettyMembers level members

end

def compact (json : Json) : String := String.ofList json.compactChars

def pretty (json : Json) : String := String.ofList (json.prettyChars 0)

end Json

end SpecWording
