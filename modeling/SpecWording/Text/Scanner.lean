/-!
# Reading from the front of a text

A scanner reads from the front of a text and leaves the rest, or fails. A failing scanner leaves
nothing behind, so `<|>` tries its second scanner on the text the first one was given.

What a pattern matches is described by what it leaves: a part of a pattern turns a text into all
the remainders that it may leave, and a pattern matches a text if it may leave nothing.
-/

namespace SpecWording.Text

abbrev Scanner (α : Type) := StateT (List Char) Option α

namespace Scanner

/-- One character that passes a test. -/
def satisfying (test : Char → Bool) : Scanner Char
  | c :: rest => if test c then some (c, rest) else none
  | [] => none

def char (c : Char) : Scanner Unit := do let _ ← satisfying (· == c)

def oneOf (cs : List Char) : Scanner Char := satisfying cs.contains

/-- The longest stretch of characters that pass a test. -/
def many (test : Char → Bool) : Scanner (List Char) := fun cs =>
  some (cs.takeWhile test, cs.dropWhile test)

/-- As many characters as stated, all of which pass a test. -/
def exactly (count : Nat) (test : Char → Bool) : Scanner (List Char) := fun cs =>
  let front := cs.take count
  if front.length = count ∧ front.all test then some (front, cs.drop count) else none

/-- A fixed stretch of characters. -/
def literal (text : List Char) : Scanner Unit := fun cs =>
  if text.isPrefixOf cs then some ((), cs.drop text.length) else none

/-- Looks at the next character and leaves it there. -/
def next? : Scanner (Option Char) := fun cs => some (cs.head?, cs)

/-- The end of the text. -/
def finish : Scanner Unit := fun cs => if cs.isEmpty then some ((), cs) else none

/-- Repeats a scanner until it fails or reads nothing. -/
def repeated {α : Type} (scanner : Scanner α) : Scanner (List α) := fun cs =>
  match scanner cs with
  | some (value, rest) =>
    if _ : rest.length < cs.length then
      (repeated scanner rest).map fun (values, rest) => (value :: values, rest)
    else some ([], cs)
  | none => some ([], cs)
termination_by cs => cs.length

/-- Items with a separator between them; a separator without an item after it is left unread. -/
def separated {α : Type} (item : Scanner α) (separator : Scanner Unit) : Scanner (List α) := do
  match ← optional item with
  | some first => return first :: (← repeated (do separator; item))
  | none => return []

end Scanner

/-! ## Remainders -/

/-- A text and everything that is left after dropping some of its front. -/
def suffixes {α : Type} : List α → List (List α)
  | [] => [[]]
  | c :: cs => (c :: cs) :: suffixes cs

/-- What may be left after the longest stretch, or a part of it, whose items pass a test. -/
def suffixesWhile {α : Type} (test : α → Bool) : List α → List (List α)
  | [] => [[]]
  | c :: cs => (c :: cs) :: if test c then suffixesWhile test cs else []

/-- What is left after each item that passes a test. -/
def suffixesAfter {α : Type} (test : α → Bool) : List α → List (List α)
  | [] => []
  | c :: cs => if test c then cs :: suffixesAfter test cs else suffixesAfter test cs

/-- What is left after one item that passes a test. -/
def restAfter {α : Type} (test : α → Bool) : List α → List (List α)
  | c :: cs => if test c then [cs] else []
  | [] => []

/-- Takes up every remainder where the part before left off. -/
def continueWith {α : Type} [BEq α] (part : List α → List (List α)) (left : List (List α)) :
    List (List α) := (left.flatMap part).eraseDups

end SpecWording.Text
