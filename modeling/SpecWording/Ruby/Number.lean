import SpecWording.Ruby.Literal

/-!
# Numbers

A whole number may be written to base two, eight, ten or sixteen, with an underscore between any two
digits. A fraction or an exponent makes it a float, and a letter behind it a rational or a complex
number.
-/

namespace SpecWording.Ruby

open Ruby.Parser

/-- Digits of a kind, with single underscores between them. -/
def digits (test : Char → Bool) : Parser Unit := do
  let _ ← satisfying test
  skipWhile fun c => test c || c == '_'

/-- The digits behind a zero with a letter for the base. -/
def basedDigits : Parser Unit := do
  char '0'
  match ← satisfying Char.isAlpha with
  | 'x' | 'X' => digits isHexDigit
  | 'b' | 'B' => digits fun c => c == '0' || c == '1'
  | 'o' | 'O' => digits isOctalDigit
  | 'd' | 'D' => digits Char.isDigit
  | _ => failure

def fraction : Parser Unit := do
  char '.'
  digits Char.isDigit

def exponent : Parser Unit := do
  let _ ← satisfying fun c => c == 'e' || c == 'E'
  let _ ← optional (satisfying fun c => c == '+' || c == '-')
  digits Char.isDigit

def plainNumber : Parser Tree := do
  let start ← position
  match ← optional basedDigits with
  | some () => close "integer" start []
  | none =>
    digits Char.isDigit
    let whole ← position
    let _ ← optional fraction
    let _ ← optional exponent
    close (if (← position) == whole then "integer" else "float") start []

/-- A number with a letter behind it is a number of its own around the plain one. -/
def suffixed (suffix : Char) (kind : String) (tree : Tree) : Parser Tree := do
  match ← optional (char suffix) with
  | some () => close kind tree.start [tree]
  | none => return tree

def number : Parser Tree := do
  let tree ← plainNumber >>= suffixed 'r' "rational" >>= suffixed 'i' "complex"
  check (!(← rest).head?.any isWordStart)
  return tree

end SpecWording.Ruby
