import SpecWording.Config.Reader

/-!
# Word tables

What a user may say about single words: which form a word takes, and which words stay as they are.
The options of the wording rule hold the two tables, each under one of two spellings. Giving both
spellings of a table is an error, and so is a value of the wrong kind. Other options do not matter.
-/

namespace SpecWording

structure WordTables where
  /-- The form of a word in place of the one that its ending gives. -/
  transforms : List (String × String) := []
  /-- Words that are never changed, in order and without repetitions. -/
  ignored : List String := []
  deriving DecidableEq, Repr, Inhabited

namespace WordTables

def transform? (tables : WordTables) (word : List Char) : Option (List Char) :=
  (tables.transforms.lookup (String.ofList word)).map String.toList

def ignores (tables : WordTables) (word : List Char) : Bool :=
  tables.ignored.contains (String.ofList word)

/-! ## Tables among the options of a rule -/

open Toml (Value)

def transformKeys : String × String := ("CustomTransform", "custom_transform")

def ignoredKeys : String × String := ("IgnoredWords", "ignored_words")

/-- A word is a string; a date counts as its text. -/
def word? : Value → Option String
  | .string text => some text
  | .datetime text => some text
  | _ => none

/-- The value under either spelling, if there is one; both together are refused. -/
def spelled? (options : List (String × Value)) (keys : String × String) : Option (Option Value) :=
  match options.lookup keys.1, options.lookup keys.2 with
  | some _, some _ => none
  | some value, none => some (some value)
  | none, value => some value

def transforms? : Value → Option (List (String × String))
  | .table entries => entries.mapM fun (word, form) => do return (word, ← word? form)
  | _ => none

/-- Words in order and without repetitions. -/
def sortedWords (words : List String) : List String :=
  (words.mergeSort fun a b => decide (a ≤ b)).eraseDups

def ignored? : Value → Option (List String)
  | .array items => sortedWords <$> items.mapM word?
  | _ => none

/-- Reads an optional value; a missing one is an empty list. -/
def readOr {α : Type} (read : Value → Option (List α)) : Option Value → Option (List α)
  | none => some []
  | some value => read value

/-- The word tables among a rule's options. -/
def ofOptions? (options : List (String × Value)) : Option WordTables := do
  let transforms ← spelled? options transformKeys >>= readOr transforms?
  let ignored ← spelled? options ignoredKeys >>= readOr ignored?
  return ⟨transforms, ignored⟩

end WordTables

end SpecWording
