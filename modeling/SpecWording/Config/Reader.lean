import SpecWording.Config.Basic
import SpecWording.Toml.Document

/-!
# Reading a configuration

A configuration is the root table of a TOML document. Entries that nothing here names are passed
over, and a value of the wrong kind makes the whole configuration unreadable.
-/

namespace SpecWording

namespace Toml.Value

def string? : Value → Option String
  | .string text => some text
  | _ => none

def boolean? : Value → Option Bool
  | .boolean value => some value
  | _ => none

def strings? : Value → Option (List String)
  | .array items => items.mapM string?
  | _ => none

/-- The key under which a date shows its text to whoever reads it as a table. -/
def dateKey : String := "$__toml_private_datetime"

/-- The entries of a table; a date is a table of its text. -/
def entries? : Value → Option (List (String × Value))
  | .table entries => some entries
  | .datetime text => some [(dateKey, .string text)]
  | _ => none

def isEmptyContainer : Value → Bool
  | .array items => items.isEmpty
  | .table entries => entries.isEmpty
  | _ => false

end Toml.Value

open Toml (Value)

namespace Severity

/-- A severity is its name, or a table whose one entry has that name and says nothing. -/
def ofToml? : Value → Option Severity
  | .string text => ofName? text
  | .table [(name, value)] => if value.isEmptyContainer then ofName? name else none
  | _ => none

end Severity

/-- Reads an entry if there is one; `none` is the result of a value of the wrong kind. -/
def readEntry? {α : Type} (entries : List (String × Value)) (key : String)
    (read : Value → Option α) : Option (Option α) :=
  match entries.lookup key with
  | none => some none
  | some value => (read value).map some

namespace RuleSettings

def ofToml? (value : Value) : Option RuleSettings := do
  let entries ← value.entries?
  return {
    enabled := ← readEntry? entries "enabled" Value.boolean?
    severity := ← readEntry? entries "severity" Severity.ofToml?
    options := entries.filter fun (key, _) => key != "enabled" && key != "severity" }

end RuleSettings

namespace FileSettings

def keys : List String := ["root", "exclude", "include", "respect_gitignore"]

def ofEntries? (entries : List (String × Value)) : Option FileSettings := do
  let root ← readEntry? entries "root" Value.string?
  let excluded ← readEntry? entries "exclude" Value.strings?
  let included ← readEntry? entries "include" Value.strings?
  let respectGitignore ← readEntry? entries "respect_gitignore" Value.boolean?
  let defaults : FileSettings := {}
  return {
    root := (root.map Path.mk).getD defaults.root
    excluded := excluded.getD defaults.excluded
    included := included.getD defaults.included
    respectGitignore := respectGitignore.getD defaults.respectGitignore }

/-- The settings are a table, or an array of the values of the first keys in their order. -/
def ofToml? : Value → Option FileSettings
  | .array items => ofEntries? (keys.zip items)
  | value => do ofEntries? (← value.entries?)

end FileSettings

namespace Config

def ofToml? (value : Value) : Option Config := do
  let entries ← value.entries?
  let rules ← readEntry? entries "rules" fun rules => do
    (← rules.entries?).mapM fun (name, value) => do return (name, ← RuleSettings.ofToml? value)
  return {
    failOn := ← readEntry? entries "fail_on" Severity.ofToml?
    files := (← readEntry? entries "analyzer" FileSettings.ofToml?).getD {}
    rules := rules.getD [] }

/-- The configuration that a text holds. -/
def parse? (text : String) : Option Config := Toml.parse? text >>= ofToml?

end Config

end SpecWording
