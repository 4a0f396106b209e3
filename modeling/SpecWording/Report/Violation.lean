import SpecWording.Path
import SpecWording.Text.Span

/-!
# Violations and their texts

A violation has a severity and a location. A location records a span of a file for people (line and
column) and for tools (offset and length); `Location.span?` turns the second pair back into the
span, given the same text.
-/

namespace SpecWording

inductive Severity where
  | info
  | warning
  | error
  deriving DecidableEq, Repr, Inhabited

namespace Severity

def rank : Severity → Nat
  | info => 0
  | warning => 1
  | error => 2

/-- Whether a severity is at or above a threshold. -/
def reaches (severity threshold : Severity) : Bool := threshold.rank ≤ severity.rank

def name : Severity → String
  | info => "info"
  | warning => "warning"
  | error => "error"

def ofName? (text : String) : Option Severity :=
  [info, warning, error].find? (·.name == text)

theorem ofName?_name (severity : Severity) : ofName? severity.name = some severity := by
  cases severity <;> rfl

end Severity

/-! ## Locations -/

structure Location where
  file : Path
  line : Nat
  column : Nat
  offset : Nat
  length : Nat
  deriving DecidableEq, Repr, Inhabited

namespace Location

open Text (Span)

def ofSpan (file : Path) (span : Span) : Location :=
  ⟨file, span.line, span.column, span.start, span.length⟩

def stop (location : Location) : Nat := location.offset + location.length

def span? (location : Location) (source : String) : Option Span :=
  Span.ofRange? source location.offset location.stop

/-- File, line and column with colons between them. -/
def position (location : Location) : String :=
  s!"{location.file.text}:{location.line}:{location.column}"

end Location

/-! ## Violations -/

/-- A new text for a stretch of a file. -/
structure Replacement where
  location : Location
  newText : String
  deriving DecidableEq, Repr, Inhabited

structure Suggestion where
  message : String
  replacement : Option Replacement
  deriving DecidableEq, Repr, Inhabited

structure Violation where
  code : String
  rule : String
  severity : Severity
  location : Location
  message : String
  suggestion : Option Suggestion := none
  /-- Whether the suggested replacement was written back to the file. -/
  fixed : Bool := false
  deriving DecidableEq, Repr, Inhabited

namespace Violation

def replacement? (violation : Violation) : Option Replacement :=
  violation.suggestion.bind (·.replacement)

/-- What a text says after the message of a corrected violation. -/
def status (violation : Violation) : String := if violation.fixed then " [corrected]" else ""

/-- The violation on one line. -/
def line (violation : Violation) : String :=
  s!"{violation.location.position}: {violation.severity.name} [{violation.code}] " ++
  s!"{violation.message}{violation.status}"

/-- The violation on two lines, and a third one for its suggestion. -/
def paragraph (violation : Violation) : String :=
  s!"{violation.code} {violation.rule} at {violation.location.position}\n" ++
  s!"  {violation.severity.name}: {violation.message}{violation.status}\n" ++
  match violation.suggestion with
  | some suggestion => s!"  = help: {suggestion.message}\n"
  | none => ""

end Violation

end SpecWording
