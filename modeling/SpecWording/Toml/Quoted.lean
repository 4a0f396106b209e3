import SpecWording.Text.Scanner

/-!
# Quoted text in TOML

Four kinds of quotes: double quotes know escapes and single ones do not, and three quotes in a row
open a text that may have line breaks. Such a text ends at the first three quotes, to which up to
two more may belong. A carriage return stands only before a line feed and is dropped there.
-/

namespace SpecWording.Toml.Quoted

open Text (Scanner)

/-- A character that a comment, and with exceptions for quotes a text, may contain. -/
def isPlain (c : Char) : Bool := c == '\t' || (c.toNat ≥ 0x20 && c.toNat != 0x7f)

def isBlank (c : Char) : Bool := c == ' ' || c == '\t'

def hexValue? (c : Char) : Option Nat :=
  if '0' ≤ c ∧ c ≤ '9' then some (c.toNat - '0'.toNat)
  else if 'a' ≤ c ∧ c ≤ 'f' then some (c.toNat - 'a'.toNat + 10)
  else if 'A' ≤ c ∧ c ≤ 'F' then some (c.toNat - 'A'.toNat + 10)
  else none

/-- The character with the number that hexadecimal digits spell, unless it is no character's. -/
def charOfHex? (digits : List Char) : Option Char := do
  let values ← digits.mapM hexValue?
  let code := values.foldl (fun code value => code * 16 + value) 0
  if code.isValidChar then some (Char.ofNat code) else none

/-- What a one-letter escape stands for. -/
def unescape? : Char → Option Char
  | 'b' => some '\x08'
  | 't' => some '\t'
  | 'n' => some '\n'
  | 'f' => some '\x0c'
  | 'r' => some '\r'
  | '"' => some '"'
  | '\\' => some '\\'
  | _ => none

/-- What an escape stands for; the text begins after the backslash. -/
def escape : Scanner Char
  | 'u' :: rest => do
    let (digits, rest) ← Scanner.exactly 4 (fun _ => true) rest
    return (← charOfHex? digits, rest)
  | 'U' :: rest => do
    let (digits, rest) ← Scanner.exactly 8 (fun _ => true) rest
    return (← charOfHex? digits, rest)
  | c :: rest => do return (← unescape? c, rest)
  | [] => none

/-- Puts a character in front of what is scanned in the rest, which has to be shorter. -/
def withRest (cs : List Char) (c : Char) (rest : List Char)
    (scan : (rest : List Char) → rest.length < cs.length → Option (List Char × List Char)) :
    Option (List Char × List Char) :=
  if h : rest.length < cs.length then (scan rest h).map fun (body, rest) => (c :: body, rest)
  else none

/-- The rest of a text after its opening double quote. -/
def basic : Scanner (List Char)
  | '"' :: rest => some ([], rest)
  | '\\' :: rest =>
    match escape rest with
    | some (c, after) => withRest ('\\' :: rest) c after fun after _ => basic after
    | none => none
  | c :: rest => if isPlain c then (basic rest).map fun (body, rest) => (c :: body, rest) else none
  | [] => none
termination_by cs => cs.length
decreasing_by all_goals grind

/-- The rest of a text after its opening single quote. -/
def literal : Scanner (List Char)
  | '\'' :: rest => some ([], rest)
  | c :: rest =>
    if isPlain c then (literal rest).map fun (body, rest) => (c :: body, rest) else none
  | [] => none

def lineBreak : Scanner Unit
  | '\n' :: rest => some ((), rest)
  | '\r' :: '\n' :: rest => some ((), rest)
  | _ => none

/-- Whether a line has nothing but blanks up to its break. -/
def endsLine (cs : List Char) : Bool := (lineBreak (cs.dropWhile isBlank)).isSome

/-- Reads a text of several lines; `skipping` blanks and line breaks after a backslash. -/
def basicLines (skipping : Bool) : Scanner (List Char)
  | '"' :: '"' :: '"' :: '"' :: '"' :: rest => some (['"', '"'], rest)
  | '"' :: '"' :: '"' :: '"' :: rest => some (['"'], rest)
  | '"' :: '"' :: '"' :: rest => some ([], rest)
  | '\\' :: rest =>
    if endsLine rest then basicLines true rest
    else match escape rest with
      | some (c, after) => withRest ('\\' :: rest) c after fun after _ => basicLines false after
      | none => none
  | '\r' :: '\n' :: rest =>
    if skipping then basicLines true rest
    else (basicLines false rest).map fun (body, rest) => ('\n' :: body, rest)
  | c :: rest =>
    if skipping && (isBlank c || c == '\n') then basicLines true rest
    else if isPlain c || c == '\n' then
      (basicLines false rest).map fun (body, rest) => (c :: body, rest)
    else none
  | [] => none
termination_by cs => cs.length
decreasing_by all_goals grind

def literalLines : Scanner (List Char)
  | '\'' :: '\'' :: '\'' :: '\'' :: '\'' :: rest => some (['\'', '\''], rest)
  | '\'' :: '\'' :: '\'' :: '\'' :: rest => some (['\''], rest)
  | '\'' :: '\'' :: '\'' :: rest => some ([], rest)
  | '\r' :: '\n' :: rest => (literalLines rest).map fun (body, rest) => ('\n' :: body, rest)
  | c :: rest =>
    if isPlain c || c == '\n' then
      (literalLines rest).map fun (body, rest) => (c :: body, rest)
    else none
  | [] => none

/-- A text of one line, in either kind of quotes. -/
def line : Scanner String
  | '"' :: rest => (basic rest).map fun (body, rest) => (String.ofList body, rest)
  | '\'' :: rest => (literal rest).map fun (body, rest) => (String.ofList body, rest)
  | _ => none

/-- A line break right after the opening quotes does not belong to the text. -/
def dropFirstBreak (cs : List Char) : List Char :=
  match lineBreak cs with
  | some ((), rest) => rest
  | none => cs

/-- A text in any of the four kinds of quotes. -/
def text : Scanner String
  | '"' :: '"' :: '"' :: rest =>
    (basicLines false (dropFirstBreak rest)).map fun (body, rest) => (String.ofList body, rest)
  | '\'' :: '\'' :: '\'' :: rest =>
    (literalLines (dropFirstBreak rest)).map fun (body, rest) => (String.ofList body, rest)
  | cs => line cs

end SpecWording.Toml.Quoted
