import SpecWording.Lint.Rule
import SpecWording.Text.LetterCase
import SpecWording.Wording.PresentTense

/-!
# The rule on example descriptions

The rule reports every description that starts with "should" and corrects it by rewording it. Only a
block called `it` counts, and only if its first argument is a plain string literal. The test looks
at the beginning of the text and not at a word, so "shouldn't" and "shoulder" are found too. It is
the one built-in rule, so the lists of rules are here too.
-/

namespace SpecWording.Wording

open Syntax (Node)
open Text (Span)

def exampleMethod : String := "it"

def flaggedStart : List Char := "should".toList

/-- Whether a text starts with "should" when case does not matter. -/
def startsFlagged (text : List Char) : Bool := flaggedStart.isPrefixOf (Text.lowercase text)

/-- The range of the literal that describes an example, if the description is flagged. -/
def flaggedLiteral? : Node → Option Syntax.ByteRange
  | .block ⟨_, method, .str value range :: _, _⟩ _ _ =>
    if method = exampleMethod ∧ startsFlagged value.toList then some range else none
  | _ => none

/-- The flagged description that a node carries, without its quotes. -/
def detect (source : String) (node : Node) : Option Span := do
  let range ← flaggedLiteral? node
  Span.inner? source range.start range.stop

/-! ## The rule -/

def ruleName : String := "example-wording"

def ruleCode : String := "EW001"

def message : String := "Do not use should when describing your tests."

/-- The rule with a severity and word tables of the user's. -/
def exampleRule (severity : Severity) (tables : WordTables) : Rule where
  name := ruleName
  code := ruleCode
  description := "Forbids example descriptions starting with \"should\""
  severity := severity
  fixable := true
  check file node := do
    let span ← detect file.content node
    return {
      code := ruleCode
      rule := ruleName
      severity := severity
      location := file.location span
      message := message }
  correct file violation := do
    let span ← violation.location.span? file.content
    return ⟨violation.location, reword tables span.text⟩

/-- The built-in rules without any configuration. -/
def defaultRules : List Rule := [exampleRule .warning {}]

/-- The word tables of a configuration, unless it spells them wrong. -/
def tables? (config : Config) : Option WordTables :=
  match config.settings? ruleName with
  | some settings => WordTables.ofOptions? settings.options
  | none => some {}

/-- The enabled built-in rules as a configuration wants them; a wrong word table is an error. -/
def configuredRules? (config : Config) : Option (List Rule) :=
  if config.isEnabled ruleName then do
    let tables ← tables? config
    return [exampleRule ((config.severity? ruleName).getD .warning) tables]
  else some []

/-- The built-in rule of a name or code. -/
def findRule? (nameOrCode : String) : Option Rule :=
  defaultRules.find? fun rule => rule.name == nameOrCode || rule.code == nameOrCode

end SpecWording.Wording
