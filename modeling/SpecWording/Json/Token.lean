import SpecWording.Json.Value

/-!
# Tokens of JSON text

A text is read character by character; what has been read of the current token is the only state.
Words and numbers run until the next blank, bracket, separator or quote and are then checked as a
whole, so two of them never stand side by side.
-/

namespace SpecWording.Json

inductive Token where
  | openArray
  | closeArray
  | openObject
  | closeObject
  | comma
  | colon
  | word (value : Json)
  | quoted (body : List Char)
  deriving Repr

namespace Token

def isBlank (c : Char) : Bool := c == ' ' || c == '\n' || c == '\t' || c == '\r'

/-- Digits with at least one, and what follows them. -/
def digits? (cs : List Char) : Option (List Char) :=
  match cs with
  | c :: rest => if c.isDigit then some (rest.dropWhile Char.isDigit) else none
  | [] => none

/-- What follows the integer part of a number: no digit follows a leading zero. -/
def integer? : List Char → Option (List Char)
  | '0' :: rest => some rest
  | cs => digits? cs

def fraction? : List Char → Option (List Char)
  | '.' :: rest => digits? rest
  | cs => some cs

def exponent? : List Char → Option (List Char)
  | c :: rest =>
    if c = 'e' ∨ c = 'E' then
      match rest with
      | sign :: rest => if sign = '+' ∨ sign = '-' then digits? rest else digits? (sign :: rest)
      | [] => none
    else some (c :: rest)
  | [] => some []

/-- A number literal: sign, integer, fraction and exponent, and nothing after them. -/
def isNumber (cs : List Char) : Bool :=
  let unsigned := match cs with
    | '-' :: rest => rest
    | cs => cs
  (integer? unsigned >>= fraction? >>= exponent?) == some []

/-- The value of a word: one of the three names, or a number. -/
def word? (cs : List Char) : Option Json :=
  if cs = ['n', 'u', 'l', 'l'] then some .null
  else if cs = ['t', 'r', 'u', 'e'] then some (.bool true)
  else if cs = ['f', 'a', 'l', 's', 'e'] then some (.bool false)
  else if isNumber cs then some (.number cs)
  else none

/-- What is being read, the latest character first. -/
inductive Mode where
  | between
  | word (read : List Char)
  | quoted (read : List Char)
  | escaped (read : List Char)
  | unit (left : Nat) (read : List Char)
  deriving Repr

/-- The mode and the tokens read so far, the latest first. -/
structure Progress where
  mode : Mode
  tokens : List Token
  deriving Repr

def punctuation? : Char → Option Token
  | '[' => some openArray
  | ']' => some closeArray
  | '{' => some openObject
  | '}' => some closeObject
  | ',' => some comma
  | ':' => some colon
  | _ => none

/-- Reads a character that starts a token or stands between tokens. -/
def start (tokens : List Token) (c : Char) : Progress :=
  if isBlank c then ⟨.between, tokens⟩
  else if c = '"' then ⟨.quoted [], tokens⟩
  else match punctuation? c with
    | some token => ⟨.between, token :: tokens⟩
    | none => ⟨.word [c], tokens⟩

def step (progress : Progress) (c : Char) : Option Progress :=
  let tokens := progress.tokens
  match progress.mode with
  | .between => some (start tokens c)
  | .word read =>
    if isBlank c || c == '"' || (punctuation? c).isSome then do
      let value ← word? read.reverse
      return start (.word value :: tokens) c
    else some ⟨.word (c :: read), tokens⟩
  | .quoted read =>
    if c = '"' then some ⟨.between, .quoted read.reverse :: tokens⟩
    else if c = '\\' then some ⟨.escaped (c :: read), tokens⟩
    else if c.toNat < 32 then none
    else some ⟨.quoted (c :: read), tokens⟩
  | .escaped read =>
    if c = 'u' then some ⟨.unit 4 (c :: read), tokens⟩
    else if (Quoted.unescape? c).isSome then some ⟨.quoted (c :: read), tokens⟩
    else none
  | .unit left read =>
    if (Quoted.hexValue? c).isSome then
      some ⟨if left ≤ 1 then .quoted (c :: read) else .unit (left - 1) (c :: read), tokens⟩
    else none

/-- The tokens of a text, unless a word is none of the format's or a string is not closed. -/
def ofText? (text : List Char) : Option (List Token) := do
  let progress ← text.foldlM step ⟨.between, []⟩
  match progress.mode with
  | .between => return progress.tokens.reverse
  | .word read => return (.word (← word? read.reverse) :: progress.tokens).reverse
  | _ => none

end Token

end SpecWording.Json
