import SpecWording.Text.Fields
import SpecWording.Wording.Tables

/-!
# Putting a description into the present tense

A description that starts with "should" says what an example demands; reworded it says what the
thing under test does. The first word goes, and the first word after it that is not ignored takes
its third-person form. A leading "shouldn't" leaves a "not" behind, which only a table changes.
-/

namespace SpecWording.Wording

open Text (words unwords)

def negatedDemand : List Char := "shouldn't".toList

def negation : List Char := "not".toList

/-- Endings after which the third person adds a syllable. -/
def sibilantEndings : List (List Char) :=
  [['o'], ['s'], ['x'], ['c', 'h'], ['s', 'h'], ['s', 's']]

def isVowel (c : Char) : Bool := c == 'a' || c == 'u' || c == 'i' || c == 'o' || c == 'e'

/-- The third-person form that a word's ending gives. -/
def suffixForm (word : List Char) : List Char :=
  if sibilantEndings.any (·.isSuffixOf word) then word ++ ['e', 's']
  else match word.reverse with
    | 'y' :: stem =>
      if stem.head?.any isVowel then word ++ ['s'] else stem.reverse ++ ['i', 'e', 's']
    | _ => word ++ ['s']

/-- The third-person present form of a word: the user's, or the one of its ending. -/
def present (tables : WordTables) (word : List Char) : List Char :=
  (tables.transform? word).getD (suffixForm word)

/-- Changes the first word that is not ignored. -/
def presentFirst (tables : WordTables) : List (List Char) → List (List Char)
  | [] => []
  | word :: others =>
    if tables.ignores word then word :: presentFirst tables others
    else present tables word :: others

def rewordWords (tables : WordTables) : List (List Char) → List (List Char)
  | [] => []
  | first :: others =>
    if first = negatedDemand then
      match tables.transform? negation with
      | some form =>
        if tables.ignores negation then negation :: presentFirst tables others else form :: others
      | none => negation :: presentFirst tables others
    else presentFirst tables others

/-- The reworded description, with one space between words. -/
def reword (tables : WordTables) (description : String) : String :=
  String.ofList (unwords (rewordWords tables (words description.toList)))

/-- The third-person present form of a single word. -/
def simplePresent (tables : WordTables) (word : String) : String :=
  String.ofList (present tables word.toList)

end SpecWording.Wording
